/-
This file is about operations that return an error: are the pointers and the link counts
of the client and of the daemon then as they were before?

From the daemon's reply on they are as they were when the daemon was entered. What was
done before that is not undone: an open leaves its client linked to the daemon, whatever
the daemon replies, and an operation that gets no task leaves the daemon paired with it.
-/

import Frobio.Fuse.Module

namespace Frobio.Fuse

open Run

/-! ### The law -/

/-- The pointers and the link counts of the client and of the daemon are the same. -/
structure SameRefs (dae cli : Path) (s t : State) : Prop where
  client : t.peer cli = s.peer cli
  clientLinks : t.linkCount cli = s.linkCount cli
  daemon : t.peer dae = s.peer dae
  daemonLinks : t.linkCount dae = s.linkCount dae

/-- An operation of the client begins. -/
def Begins (cli : Path) (s : State) : Action → Prop
  | .openPath other _ _ => other = cli ∧ s.control cli = .fresh
  | .operate other op _ => other = cli ∧ s.control cli = .idle ∧ op.plain = true
  | .close other _ => other = cli ∧ s.control cli = .idle
  | _ => False

/-- The steps of an operation after its begin: those of the client, and of the daemon. Another client
may enter the daemon as soon as it has replied, and then its pointers are those of that client; so
an operation is looked at by itself. -/
def Continues (cli : Path) : Action → Prop
  | .tick other | .resume other => other = cli
  | .readDaemon _ | .resumeDaemon | .writeDaemon _ => True
  | _ => False

/-- A whole operation of the client, from `s` to `t`, that returns an error. If it is over at once,
nothing follows. -/
structure Fails (dae cli : Path) (s : State) (action : Action) (later : List Action) (t : State) :
    Prop where
  begins : Begins cli s action
  continues : ∀ other ∈ later, Continues cli other
  reached : run (step dae) s (action :: later) = some t
  pending : later = [] ∨ ∃ u, step dae s action = some u ∧ u.answers = s.answers
  error : ∃ op status, t.answers = s.answers ++ [(cli, op, status)] ∧ status ≠ 0

def Reachable (dae : Path) (s : State) : Prop :=
  ∃ name actions, run (step dae) (start name) actions = some s

/-- The operations whose errors undo what they did: an open that finds no daemon, and an operation
on an open path that gets its task. -/
def Undoes (s : State) : Action → Prop
  | .openPath _ name _ => s.name ≠ some name
  | .operate _ _ reserve => reserve = 0
  | _ => False

/-! ### The operation, from the daemon's entry on -/

section

variable {dae cli : Path} {s t b : State}

/-- Two states with the same pointers and link counts. -/
def SamePeers (s t : State) : Prop := t.peer = s.peer ∧ t.linkCount = s.linkCount

/-- The daemon points to the client. -/
def Paired (dae cli : Path) (b t : State) : Prop :=
  b.peer dae = none ∧ t.peer = Function.update b.peer dae (some cli) ∧
    t.linkCount = Function.update b.linkCount cli (b.linkCount cli + 1)

/-- When the operation has ended, the pointers are those of the given state, and at the end of a
close the client's is cleared. -/
def Ended (cli : Path) (b : State) (op : Op) (t : State) : Prop :=
  if op = .OP_CLOSE then t.peer = Function.update b.peer cli none else SamePeers b t

/-- How far the operation is, since the daemon was entered in the state `b`. -/
inductive Stage (dae cli : Path) (b : State) (op : Op) (reserve : UInt8) (t : State) : Prop
  | waiting (call : Call) (same : call.op = op)
    (control : (∃ timeout, t.control cli = .switching call timeout) ∨
      t.control cli = .pausing call none)
    (paired : Paired dae cli b t) (got : reserve = 0) (answers : t.answers = b.answers)
  | replied (call : Call) (reply : Reply) (same : call.op = op)
    (control : t.control cli = .pausing call (some reply))
    (peers : SamePeers b t) (apart : b.peer dae = none) (got : reserve = 0)
    (answers : t.answers = b.answers)
  | ended (status : UInt8) (control : t.control cli = .idle ∨ t.control cli = .closed)
    (apart : b.peer dae = none)
    (peers : ∃ b', (if reserve = 0 then SamePeers b b' else Paired dae cli b b') ∧
      Ended cli b' op t)
    (answers : t.answers = b.answers ++ [(cli, op, status)])

theorem finish_ended {op : Op} {status : UInt8} (finished : finish s cli op status = some t) :
    Ended cli s op t ∧ (t.control cli = .idle ∨ t.control cli = .closed) ∧
      t.answers = s.answers ++ [(cli, op, status)] := by
  have plain : ∀ control, (control = .idle ∨ control = .closed) → op ≠ .OP_CLOSE →
      t = ({ s with answers := s.answers ++ [(cli, op, status)] } : State).setControl cli control →
      Ended cli s op t ∧ (t.control cli = .idle ∨ t.control cli = .closed) ∧
        t.answers = s.answers ++ [(cli, op, status)] := by
    rintro control settled notClose rfl
    refine ⟨?_, ?_, rfl⟩
    · rw [Ended, if_neg notClose]
      exact ⟨rfl, rfl⟩
    · rw [control_setControl]
      exact settled
  unfold finish at finished
  split at finished
  · refine plain _ ?_ nofun (Option.some.inj finished).symm
    split
    · exact .inl rfl
    · exact .inr rfl
  · refine plain _ ?_ nofun (Option.some.inj finished).symm
    split
    · exact .inl rfl
    · exact .inr rfl
  · split at finished
    · obtain ⟨cleared, clear, rfl⟩ := Option.map_eq_some_iff.mp finished
      obtain ⟨-, rfl⟩ := clearPeer_eq_some_iff.mp clear
      refine ⟨?_, .inr (control_setControl ..), rfl⟩
      rw [Ended, if_pos rfl]
      rfl
    · cases finished
  · rename_i notCreate notOpen notClose
    exact plain _ (.inl rfl) notClose (Option.some.inj finished).symm

theorem paired_of_setPeer {b' : State} (paired : setPeer b dae cli = some b') :
    Paired dae cli b b' ∧ b'.answers = b.answers := by
  obtain ⟨free, rfl⟩ := setPeer_eq_some_iff.mp paired
  exact ⟨⟨free, rfl, rfl⟩, rfl⟩

/-- The daemon is entered. -/
theorem stage_enterDaemon {op : Op} {reserve : UInt8}
    (entered : enterDaemon dae b cli op reserve = some t) : Stage dae cli b op reserve t := by
  obtain ⟨b', paired, rest⟩ := Option.bind_eq_some_iff.mp entered
  obtain ⟨pair, answers⟩ := paired_of_setPeer paired
  by_cases got : reserve = 0
  · have switched : t = switchProcess dae { b' with calls := b'.calls + 1 } cli ⟨op, b'.calls⟩ := by
      rw [if_neg (not_not_intro got)] at rest
      exact (Option.some.inj rest).symm
    rw [switchProcess] at switched
    split at switched
    · obtain ⟨daemon, awakened⟩ := awakenDaemon_eq { b' with calls := b'.calls + 1 }
      rw [awakenAndPause, awakened] at switched
      rw [switched]
      exact .waiting ⟨op, b'.calls⟩ rfl (.inr (control_setControl ..)) pair got answers
    · rw [switched]
      exact .waiting ⟨op, b'.calls⟩ rfl (.inl ⟨50, control_setControl ..⟩) pair got answers
  · rw [if_pos got] at rest
    obtain ⟨ended, control, logged⟩ := finish_ended rest
    exact .ended reserve control pair.1 ⟨b', by rw [if_neg got]; exact pair, ended⟩
      (answers ▸ logged)

/-! ### The steps that follow -/

/-- What a step leaves alone that is not about a client. -/
theorem Stage.congr {op : Op} {reserve : UInt8} (stage : Stage dae cli b op reserve s)
    (peer : t.peer = s.peer) (linkCount : t.linkCount = s.linkCount)
    (control : t.control = s.control) (answers : t.answers = s.answers) :
    Stage dae cli b op reserve t := by
  have peers : ∀ b', SamePeers b' s → SamePeers b' t :=
    fun _ same => ⟨peer.trans same.1, linkCount.trans same.2⟩
  cases stage with
  | waiting call same control' paired got logged =>
    exact .waiting call same (control ▸ control')
      ⟨paired.1, peer.trans paired.2.1, linkCount.trans paired.2.2⟩ got (answers.trans logged)
  | replied call reply same control' peers' apart got logged =>
    exact .replied call reply same (control ▸ control') (peers b peers') apart got
      (answers.trans logged)
  | ended status control' apart peers' logged =>
    obtain ⟨b', known, ended⟩ := peers'
    refine .ended status (control ▸ control') apart ⟨b', known, ?_⟩ (answers.trans logged)
    rw [Ended] at ended ⊢
    split
    · rename_i close
      rw [if_pos close] at ended
      rw [peer]
      exact ended
    · rename_i notClose
      rw [if_neg notClose] at ended
      exact peers b' ended

theorem stage_tick {op : Op} {reserve : UInt8} (stage : Stage dae cli b op reserve s)
    (stepped : step dae s (.tick cli) = some t) : Stage dae cli b op reserve t := by
  rw [step] at stepped
  split at stepped
  · rename_i call timeout switching
    cases stage with
    | waiting call' same control paired got logged =>
      have calls : call' = call := by
        rcases control with ⟨timeout', control⟩ | control
        · cases switching.symm.trans control
          rfl
        · cases switching.symm.trans control
      subst calls
      split at stepped
      · split at stepped
        · obtain ⟨daemon, awakened⟩ := awakenDaemon_eq s
          rw [awakenAndPause, awakened] at stepped
          obtain rfl := Option.some.inj stepped
          exact .waiting call' same (.inr (control_setControl ..)) paired got logged
        · obtain rfl := Option.some.inj stepped
          exact .waiting call' same (.inl ⟨_, control_setControl ..⟩) paired got logged
      · cases stepped
    | replied call' reply same control => cases switching.symm.trans control
    | ended status control =>
      rcases control with control | control <;> cases switching.symm.trans control
  · obtain rfl := Option.some.inj stepped
    exact stage

theorem stage_resume {op : Op} {reserve : UInt8} (stage : Stage dae cli b op reserve s)
    (stepped : step dae s (.resume cli) = some t) : Stage dae cli b op reserve t := by
  rw [step] at stepped
  split at stepped
  · rename_i call reply pausing
    cases stage with
    | waiting call' same control =>
      rcases control with ⟨timeout, control⟩ | control <;> cases pausing.symm.trans control
    | replied call' reply' same control peers apart got logged =>
      cases pausing.symm.trans control
      obtain ⟨ended, settled, answered⟩ := finish_ended stepped
      rw [same] at ended answered
      refine .ended reply.status settled apart ⟨_, ?_, ended⟩ ?_
      · rw [if_pos got]
        exact peers
      · rw [answered]
        exact congrArg (· ++ [_]) logged
    | ended status control =>
      rcases control with control | control <;> cases pausing.symm.trans control
  · obtain rfl := Option.some.inj stepped
    exact stage

theorem stage_writeDaemon (apart : cli ≠ dae) {op : Op} {reserve : UInt8} {reply : Reply}
    (stage : Stage dae cli b op reserve s) (stepped : daemonWrite dae s reply = some t) :
    Stage dae cli b op reserve t := by
  obtain ⟨other, call, old, pair, back, paused, pausing, rfl⟩ := daemonWrite_eq_some_iff.mp stepped
  cases stage with
  | waiting call' same control paired got logged =>
    obtain ⟨free, peer, linkCount⟩ := paired
    have toClient : s.peer dae = some cli := by
      rw [peer]
      exact Function.update_self _ _ _
    obtain rfl : cli = other := Option.some.inj (toClient.symm.trans pair)
    have calls : call' = call := by
      rcases control with ⟨timeout, control⟩ | control
      · cases control.symm.trans pausing
      · cases control.symm.trans pausing
        rfl
    subst calls
    refine .replied call' reply same (control_setControl ..) ⟨?_, ?_⟩ free got logged
    · show Function.update s.peer dae none = b.peer
      rw [peer, Function.update_idem, ← free, Function.update_eq_self]
    · show Function.update s.linkCount cli (s.linkCount cli - 1) = b.linkCount
      rw [linkCount, Function.update_self, UInt8.add_sub_cancel, Function.update_idem,
        Function.update_eq_self]
  | replied call' reply' same control peers free got logged =>
    rw [peers.1, free] at pair
    cases pair
  | ended status control free peers logged =>
    obtain ⟨b', known, ended⟩ := peers
    have unchanged : s.peer dae = b'.peer dae := by
      rw [Ended] at ended
      split at ended
      · rw [ended]
        exact Function.update_of_ne apart.symm _ _
      · rw [ended.1]
    by_cases got : reserve = 0
    · rw [if_pos got] at known
      rw [unchanged, known.1, free] at pair
      cases pair
    · rw [if_neg got] at known
      rw [unchanged, known.2.1, Function.update_self, Option.some.injEq] at pair
      subst pair
      rcases control with control | control <;> cases pausing.symm.trans control

theorem stage_continues (apart : cli ≠ dae) {op : Op} {reserve : UInt8}
    (stage : Stage dae cli b op reserve s) {action : Action} (continues : Continues cli action)
    (stepped : step dae s action = some t) : Stage dae cli b op reserve t := by
  cases action with
  | tick other =>
    obtain rfl : other = cli := continues
    exact stage_tick stage stepped
  | resume other =>
    obtain rfl : other = cli := continues
    exact stage_resume stage stepped
  | readDaemon size =>
    rw [step] at stepped
    split at stepped <;> obtain rfl := Option.some.inj stepped
    · exact stage.congr rfl rfl rfl rfl
    · exact stage
  | resumeDaemon =>
    rw [step] at stepped
    split at stepped
    · obtain ⟨_, _, _, _, _, _, rfl⟩ := resumeRead_eq_some_iff.mp stepped
      exact stage.congr rfl rfl rfl rfl
    · obtain rfl := Option.some.inj stepped
      exact stage
  | writeDaemon reply =>
    rw [step] at stepped
    split at stepped
    · exact stage_writeDaemon apart stage stepped
    · obtain rfl := Option.some.inj stepped
      exact stage
  | alloc => exact continues.elim
  | openPath => exact continues.elim
  | operate => exact continues.elim
  | close => exact continues.elim
  | closeDaemon => exact continues.elim

/-! ### Whole operations -/

theorem stage_run (apart : cli ≠ dae) {op : Op} {reserve : UInt8} {later : List Action}
    (stage : Stage dae cli b op reserve s) (continues : ∀ other ∈ later, Continues cli other)
    (reached : run (step dae) s later = some t) : Stage dae cli b op reserve t := by
  induction later generalizing s with
  | nil => exact Option.some.inj reached ▸ stage
  | cons action rest inductionHypothesis =>
    obtain ⟨next, stepped, onward⟩ := run_cons_eq_some.mp reached
    exact inductionHypothesis
      (stage_continues apart stage (continues action List.mem_cons_self) stepped)
      (fun other member => continues other (List.mem_cons_of_mem _ member)) onward

theorem append_answer_ne (answers : List (Path × Op × UInt8)) (answer : Path × Op × UInt8) :
    answers ++ [answer] ≠ answers := by
  intro same
  have length := congrArg List.length same
  rw [List.length_append, List.length_singleton] at length
  omega

/-- An operation that entered the daemon and has an answer has ended. -/
theorem Stage.ended_of_answer {op : Op} {reserve : UInt8} (stage : Stage dae cli b op reserve t)
    {answer : Path × Op × UInt8} (answered : t.answers = b.answers ++ [answer]) :
    b.peer dae = none ∧
      ∃ b', (if reserve = 0 then SamePeers b b' else Paired dae cli b b') ∧ Ended cli b' op t := by
  have none : t.answers ≠ b.answers := by
    rw [answered]
    exact append_answer_ne _ _
  cases stage with
  | waiting _ _ _ _ _ answers => exact absurd answers none
  | replied _ _ _ _ _ _ _ answers => exact absurd answers none
  | ended status control free peers answers => exact ⟨free, peers⟩

theorem control_daemon_of_reachable (reachable : Reachable dae s) : s.control dae = .closed := by
  obtain ⟨name, actions, reached⟩ := reachable
  exact invariant_of_run (fun s => s.control dae = .closed)
    (fun s action t closed _ stepped => control_daemon_step action closed stepped)
    (rfl : (start name).control dae = .closed) (meets_true _ actions) reached

theorem ne_of_begins (reachable : Reachable dae s) {action : Action}
    (begins : Begins cli s action) : cli ≠ dae := by
  have closed := control_daemon_of_reachable reachable
  rintro rfl
  cases action with
  | openPath => exact nomatch closed.symm.trans begins.2
  | operate => exact nomatch closed.symm.trans begins.2.1
  | close => exact nomatch closed.symm.trans begins.2
  | alloc => exact begins
  | tick => exact begins
  | resume => exact begins
  | readDaemon => exact begins
  | resumeDaemon => exact begins
  | writeDaemon => exact begins
  | closeDaemon => exact begins

/-- An operation that returns an error leaves the pointers and the link counts as they were just
when it is one of those that undo what they did. -/
theorem sameRefs_iff_undoes (reachable : Reachable dae s) {action : Action} {later : List Action}
    (fails : Fails dae cli s action later t) : SameRefs dae cli s t ↔ Undoes s action := by
  have apart := ne_of_begins reachable fails.begins
  obtain ⟨begins, continues, reached, pending, op, status, answered, error⟩ := fails
  obtain ⟨u, stepped, onward⟩ := run_cons_eq_some.mp reached
  cases action with
  | openPath other name reserve =>
    obtain ⟨rfl, fresh⟩ := begins
    have opened : ∀ {v}, step dae s (.openPath other name reserve) = some v →
        clientOperation dae s other .OP_OPEN (some name) reserve = some v := by
      intro v stepped
      rw [step, if_pos fresh] at stepped
      exact stepped
    have called := opened stepped
    rw [clientOperation_opening] at called
    rw [Undoes]
    by_cases found : s.name = some name
    · rw [if_pos found] at called
      obtain ⟨linked, link, entered⟩ := Option.bind_eq_some_iff.mp called
      obtain ⟨free, rfl⟩ := setPeer_eq_some_iff.mp link
      have stage := stage_run apart (stage_enterDaemon entered) continues onward
      obtain ⟨-, b', known, ended⟩ := stage.ended_of_answer answered
      rw [Ended, if_neg (by simp)] at ended
      refine iff_of_false (fun same => ?_) (not_not_intro found)
      -- the client is still linked to the daemon
      have still : t.peer other = some dae := by
        rw [ended.1]
        split at known
        · rw [known.1]
          exact Function.update_self _ _ _
        · rw [known.2.1, Function.update_of_ne apart]
          exact Function.update_self _ _ _
      have wrong := same.client
      rw [still, free] at wrong
      cases wrong
    · rw [if_neg found] at called
      obtain ⟨ended, -, logged⟩ := finish_ended called
      rw [Ended, if_neg (by simp)] at ended
      have last : later = [] := by
        refine pending.resolve_right ?_
        rintro ⟨u', stepped', silent⟩
        cases stepped.symm.trans stepped'
        exact append_answer_ne _ _ (logged.symm.trans silent)
      subst last
      obtain rfl := Option.some.inj onward
      exact iff_of_true ⟨by rw [ended.1], by rw [ended.2], by rw [ended.1], by rw [ended.2]⟩ found
  | operate other plainOp reserve =>
    obtain ⟨rfl, idle, plain⟩ := begins
    rw [step, if_pos (.inl ⟨idle, plain⟩), clientOperation_linked] at stepped
    split at stepped
    · have stage := stage_run apart (stage_enterDaemon stepped) continues onward
      obtain ⟨free, b', known, ended⟩ := stage.ended_of_answer answered
      have notClose : plainOp ≠ .OP_CLOSE := by
        rintro rfl
        cases plain
      rw [Ended, if_neg notClose] at ended
      rw [Undoes]
      by_cases got : reserve = 0
      · rw [if_pos got] at known
        refine iff_of_true ⟨?_, ?_, ?_, ?_⟩ got
        · rw [ended.1, known.1]
        · rw [ended.2, known.2]
        · rw [ended.1, known.1]
        · rw [ended.2, known.2]
      · rw [if_neg got] at known
        refine iff_of_false (fun same => ?_) got
        -- the daemon is still paired with the client
        have wrong := same.daemon
        rw [ended.1, known.2.1, Function.update_self, free] at wrong
        cases wrong
    · cases stepped
  | close other reserve =>
    obtain ⟨rfl, idle⟩ := begins
    have begun : ∀ {v}, step dae s (.close other reserve) = some v →
        v = ({ s with
          linkCount := Function.update s.linkCount other (s.linkCount other - 1)
          answers := s.answers ++ [(other, Op.OP_CLOSE, 0)] } : State).setControl other .closed ∨
        clientOperation dae
          { s with linkCount := Function.update s.linkCount other (s.linkCount other - 1) }
          other .OP_CLOSE none reserve = some v := by
      intro v stepped
      rw [step, if_pos idle] at stepped
      dsimp only at stepped
      split at stepped
      · exact .inl (Option.some.inj stepped).symm
      · exact .inr stepped
    refine iff_of_false (fun same => ?_) id
    rcases begun stepped with rfl | called
    · -- a close of one of several links returns at once, and without an error
      have last : later = [] := by
        refine pending.resolve_right ?_
        rintro ⟨u', stepped', silent⟩
        cases stepped.symm.trans stepped'
        exact append_answer_ne _ _ silent
      subst last
      obtain rfl := Option.some.inj onward
      have answer := List.append_cancel_left answered
      cases answer
      exact error rfl
    · rw [clientOperation_linked] at called
      split at called
      · rename_i linked
        have stage := stage_run apart (stage_enterDaemon called) continues onward
        obtain ⟨-, b', known, ended⟩ := stage.ended_of_answer answered
        rw [Ended, if_pos rfl] at ended
        -- the client's pointer is cleared
        have wrong := same.client
        rw [ended, Function.update_self] at wrong
        cases wrong.trans linked.1
      · cases called
  | alloc => exact begins.elim
  | tick => exact begins.elim
  | resume => exact begins.elim
  | readDaemon => exact begins.elim
  | resumeDaemon => exact begins.elim
  | writeDaemon => exact begins.elim
  | closeDaemon => exact begins.elim

end

/-- The daemon `0` replies to a read of the client `1` with an error. -/
theorem sameRefs_iff_undoes_read : ∃ s later t, Fails 0 1 s (.operate 1 .OP_READ 0) later t ∧
    (SameRefs 0 1 s t ↔ Undoes s (.operate 1 .OP_READ 0)) := by
  have fails : ∃ s t, run (step 0) (start []) [.alloc 1, .openPath 1 [] 0, .readDaemon 64, .tick 1,
      .resumeDaemon, .writeDaemon ⟨0, []⟩, .resume 1] = some s ∧
      Fails 0 1 s (.operate 1 .OP_READ 0) [.readDaemon 64, .tick 1, .resumeDaemon,
        .writeDaemon ⟨0xD3, []⟩, .resume 1] t :=
    ⟨_, _, rfl, ⟨rfl, rfl, rfl⟩, by simp [Continues], rfl, .inr ⟨_, rfl, rfl⟩, _, 0xD3, rfl,
      by decide⟩
  obtain ⟨s, t, reached, fails⟩ := fails
  exact ⟨s, _, t, fails, sameRefs_iff_undoes ⟨_, _, reached⟩ fails⟩

/-- The daemon `0` refuses to open a file, and the client `1` stays linked to it. -/
theorem not_sameRefs_open : ¬∀ dae cli s action later t, Reachable dae s →
    Fails dae cli s action later t → SameRefs dae cli s t := by
  intro law
  have same := law 0 1 _ (.openPath 1 [] 0) [.readDaemon 64, .tick 1, .resumeDaemon,
    .writeDaemon ⟨0xD8, []⟩, .resume 1] _ ⟨[], [.alloc 1], rfl⟩
    ⟨⟨rfl, rfl⟩, by simp [Continues], rfl, .inr ⟨_, rfl, rfl⟩, _, 0xD8, rfl, by decide⟩
  exact nomatch same.client

end Frobio.Fuse
