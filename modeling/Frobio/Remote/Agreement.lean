/-
This file shows that a conversation between the waiter and Axiom comes to its end: it
is never stuck before all calls have returned and Axiom is polling with nothing to
read, and each step of the two leaves less to do. With that it shows what the calls
return and what they leave in RAM.
-/

import Frobio.Remote.Steps

namespace Frobio.Remote

open Coms Memory Ring Run

variable {own : Nat → Bool} {calls : List Call} {ram now : Nat → UInt8} {x next : State}

/-- All calls have returned, and Axiom has done all of them. -/
def State.Quiet (x : State) : Prop :=
  x.todo = [] ∧ x.stage = .idle ∧ x.toAxiom = [] ∧ x.toWaiter = [] ∧ x.task = .polling

/-- A step that is more than a change of Axiom's own bytes. -/
def Action.onward : Action → Bool
  | .own _ => false
  | _ => true

/-! ### What there is to do -/

/-- More than Axiom does for any quint. -/
def ROUNDS : Nat := 70000

def Call.work (call : Call) : Nat := ROUNDS * call.request.length + 3

def Stage.work : Stage → Nat
  | data bytes => ROUNDS * bytes.length + 1
  | header _ => 2
  | payload _ => 1
  | _ => 0

def Task.work : Task → Nat
  | poke _ n => n + 1
  | peek _ n => n + 1
  | checkSum16 begin_ end_ _ => end_ - begin_ + 1
  | reply _ => 1
  | _ => 0

def State.work (x : State) : Nat :=
  (x.todo.map Call.work).sum + x.stage.work + ROUNDS * x.toAxiom.length + x.task.work

theorem length_readQuint {stream rest : List UInt8} {q : Quint}
    (read : readQuint stream = some (q, rest)) : stream.length = rest.length + 5 := by
  rw [readQuint_eq_some.mp read, List.length_append, Quint.length_bytes, Nat.add_comm]

theorem work_header (call : Call) (q : Quint) :
    (call.header q).1.work < (Stage.header call).work := by
  cases call with
  | pokeRam addr data => exact Nat.zero_lt_succ _
  | peekRam addr n =>
    rw [Call.header]
    split
    · exact Nat.lt_succ_self _
    · exact Nat.zero_lt_succ _
  | checkSum16Ram addr n =>
    rw [Call.header]
    split
    · exact Nat.zero_lt_succ _
    · exact Nat.zero_lt_succ _
  | scanKeyboard =>
    rw [Call.header]
    split
    · exact Nat.zero_lt_succ _
    · split
      · exact Nat.zero_lt_succ _
      · exact Nat.lt_succ_self _

theorem work_waiterStep (taken : waiterStep x = some next) : next.work < x.work := by
  rw [waiterStep] at taken
  split at taken
  · rename_i idle
    split at taken
    · cases taken
    rename_i call todo todo_eq
    dsimp only at taken
    split at taken
    · cases taken
      simp only [State.work, todo_eq, idle, Stage.work, List.map_cons, List.sum_cons, Call.work,
        Call.request, List.length_append, Quint.length_bytes, ROUNDS]
      omega
    · rename_i other
      cases taken
      have request : call.request = call.quint.bytes := by
        cases call with
        | pokeRam addr data => exact absurd rfl (other addr data)
        | _ => rfl
      simp only [State.work, todo_eq, idle, Stage.work, List.map_cons, List.sum_cons, Call.work,
        request, List.length_append, Quint.length_bytes, ROUNDS]
      omega
  · rename_i data stage
    cases taken
    simp only [State.work, stage, Stage.work, List.length_append, ROUNDS]
    omega
  · rename_i call stage
    split at taken
    · cases taken
    rename_i q rest read
    cases taken
    have less := work_header call q
    simp only [State.work, stage]
    omega
  · rename_i n stage
    split at taken
    · cases taken
    cases taken
    simp only [State.work, stage, Stage.work]
    omega
  · cases taken

/-- Axiom takes five bytes for any quint, which is more than it does with it. -/
theorem work_lemmaClientS1 (x : State) (q : Quint) (keys : List UInt8) :
    (lemmaClientS1 x q keys).todo = x.todo ∧ (lemmaClientS1 x q keys).stage = x.stage ∧
      (lemmaClientS1 x q keys).toAxiom = x.toAxiom ∧
      (lemmaClientS1 x q keys).task.work ≤ ROUNDS := by
  have n_lt := q.n_lt
  have p_lt := q.p_lt
  have ends : (q.p + q.n) % SPACE < 65536 := Nat.mod_lt _ (by decide)
  rw [lemmaClientS1]
  split
  · exact ⟨rfl, rfl, rfl, by simp only [Task.work, ROUNDS]; omega⟩
  split
  · exact ⟨rfl, rfl, rfl, by simp only [Task.work, ROUNDS]; omega⟩
  split
  · exact ⟨rfl, rfl, rfl, by simp only [Task.work, ROUNDS]; omega⟩
  split
  · exact ⟨rfl, rfl, rfl, by simp only [Task.work, ROUNDS]; omega⟩
  · exact ⟨rfl, rfl, rfl, Nat.zero_le _⟩

/-- A checksum in the making ends before the addresses wrap. -/
def Task.Ends : Task → Prop
  | checkSum16 begin_ end_ _ => end_ < SPACE ∧ (end_ = 65535 → begin_ % 2 = 1)
  | _ => True

theorem InFrame.ends (frame : InFrame own calls ram x) : x.task.Ends := by
  obtain ⟨finished, active, -, -, phase⟩ := frame.books
  have ofResting {bytes : List UInt8} (resting : Resting own x.task bytes) : x.task.Ends := by
    generalize x.task = task at resting
    cases resting <;> exact trivial
  have ofComing {call : Call} {bytes : List UInt8}
      (coming : Coming own x.ram call x.task bytes) : x.task.Ends := by
    generalize x.task = task at coming
    cases coming with
    | summing addr n begin_ end_ sum sum' below odd => exact ⟨below, odd⟩
    | _ => exact trivial
  cases phase with
  | pokes _ queue bytes stage nothing resting => exact ofResting resting
  | asked call queue bytes stage nothing resting => exact ofResting resting
  | replying call bytes stage nothing coming => exact ofComing coming
  | payload call n bytes stage nothing coming => exact ofComing coming

theorem chunkOf_pos {n : Nat} (some : n ≠ 0) : 0 < chunkOf n := by
  rw [chunkOf]
  split
  · omega
  · decide

theorem work_axiomStep {keys : List UInt8} (ends : x.task.Ends)
    (taken : axiomStep keys x = some next) : next.work < x.work := by
  rw [axiomStep] at taken
  split at taken
  · rename_i task
    split at taken
    · cases taken
    rename_i q toAxiom read
    cases taken
    have after := work_lemmaClientS1 { x with toAxiom } q keys
    rw [task] at after
    obtain ⟨todo, stage, unread, less⟩ := after
    simp only [State.work, todo, stage, unread, task, length_readQuint read, ROUNDS]
    rw [ROUNDS] at less
    omega
  · rename_i p n task
    split at taken
    · cases taken
      simp only [State.work, task, Task.work]
      omega
    · rename_i going
      have positive := chunkOf_pos going
      split at taken
      · cases taken
      rename_i data toAxiom read
      cases taken
      obtain ⟨whole, -⟩ := readFull_eq_some.mp read
      simp only [State.work, task, Task.work, whole, List.length_append, ROUNDS]
      omega
  · rename_i p n task
    split at taken
    · cases taken
      simp only [State.work, task, Task.work]
      omega
    · rename_i going
      have positive := chunkOf_pos going
      cases taken
      simp only [State.work, task, Task.work]
      omega
  · rename_i begin_ end_ sum task
    rw [task] at ends
    obtain ⟨below, odd⟩ := ends
    split at taken
    · rename_i going
      cases taken
      -- were the sum to end in the middle of the last word, the pointer would wrap
      have onward : (begin_ + 2) % SPACE = begin_ + 2 := by
        rw [SPACE] at below ⊢
        omega
      simp only [State.work, task, Task.work, onward]
      omega
    · cases taken
      simp only [State.work, task, Task.work]
      omega
  · rename_i buf8 task
    cases taken
    simp only [State.work, task, Task.work]
    omega
  · cases taken

/-- A run takes no more steps than there is to do at its start. -/
theorem InFrame.bounded (occupied : ∃ a < SPACE, own a = true) {actions : List Action}
    (frame : InFrame own calls ram x) (reached : run (Remote.step own) x actions = some next) :
    (actions.filter Action.onward).length ≤ x.work := by
  induction actions generalizing x with
  | nil => exact Nat.zero_le _
  | cons action rest inductionHypothesis =>
    obtain ⟨middle, taken, later⟩ := run_cons_eq_some.mp reached
    have after := inductionHypothesis (frame.step occupied taken) later
    cases action with
    | waiter =>
      have less := work_waiterStep taken
      rw [List.filter_cons_of_pos rfl, List.length_cons]
      omega
    | axiom41 keys =>
      rw [Remote.step] at taken
      split at taken
      · have less := work_axiomStep frame.ends taken
        rw [List.filter_cons_of_pos rfl, List.length_cons]
        omega
      · cases taken
    | own bytes =>
      cases taken
      rw [List.filter_cons_of_neg Bool.false_ne_true]
      exact after

/-! ### Nobody waits for ever -/

theorem exists_readQuint {stream : List UInt8} (long : 5 ≤ stream.length) :
    ∃ q rest, readQuint stream = some (q, rest) := by
  match stream, long with
  | q0 :: q1 :: q2 :: q3 :: q4 :: rest, _ => exact ⟨⟨q0, q1, q2, q3, q4⟩, rest, rfl⟩

theorem exists_readFull {n : Nat} {stream : List UInt8} (long : n ≤ stream.length) :
    ∃ z rest, readFull n stream = some (z, rest) := by
  rw [readFull, if_pos long]
  exact ⟨_, _, rfl⟩

/-- A request has a quint. -/
theorem five_le_request (call : Call) : 5 ≤ call.request.length := by
  cases call with
  | pokeRam addr data =>
    rw [Call.request, List.length_append, Quint.length_bytes]
    omega
  | _ => exact Nat.le_refl 5

theorem Resting.exists_step {keys bytes rest : List UInt8} (resting : Resting own x.task bytes)
    (unread : x.toAxiom = bytes ++ rest) (more : x.task = .polling → 5 ≤ rest.length) :
    ∃ next, axiomStep keys x = some next := by
  rw [axiomStep]
  generalize x.task = task at resting more
  cases resting with
  | polling =>
    obtain ⟨q, left, read⟩ := exists_readQuint (more rfl)
    rw [List.nil_append] at unread
    rw [unread, read]
    exact ⟨_, rfl⟩
  | peeked p => exact ⟨_, rfl⟩
  | poked p => exact ⟨_, rfl⟩
  | poking p bytes clear =>
    dsimp only
    split
    · exact ⟨_, rfl⟩
    · have least := chunkOf_le bytes.length
      obtain ⟨z, left, read⟩ := @exists_readFull (chunkOf bytes.length) x.toAxiom
        (by rw [unread, List.length_append]; omega)
      rw [read]
      exact ⟨_, rfl⟩

theorem Coming.exists_step {call : Call} {keys bytes : List UInt8}
    (coming : Coming own x.ram call x.task bytes) (busy : x.task ≠ .polling) :
    ∃ next, axiomStep keys x = some next := by
  rw [axiomStep]
  generalize x.task = task at coming busy
  cases coming with
  | polling => exact absurd rfl busy
  | peeked _ p => exact ⟨_, rfl⟩
  | peeking _ p n clear =>
    dsimp only
    split
    · exact ⟨_, rfl⟩
    · exact ⟨_, rfl⟩
  | summing addr n begin_ end_ sum sum' below odd =>
    dsimp only
    split
    · exact ⟨_, rfl⟩
    · exact ⟨_, rfl⟩
  | replying _ keys eight => exact ⟨_, rfl⟩

theorem five_le_reply {call : Call} {bytes : List UInt8} (reply : call.Reply now bytes) :
    5 ≤ bytes.length := by
  cases call with
  | pokeRam addr data => exact reply.elim
  | peekRam addr n =>
    rw [show bytes = _ from reply, List.length_append, Quint.length_bytes]
    omega
  | checkSum16Ram addr n =>
    obtain ⟨sum, same⟩ := reply
    rw [same, Quint.length_bytes]
  | scanKeyboard =>
    obtain ⟨keys, eight, same⟩ := reply
    rw [same, List.length_append, Quint.length_bytes]
    omega

theorem Coming.nil_of_polling {call : Call} {bytes : List UInt8}
    (coming : Coming own ram call .polling bytes) : bytes = [] := by
  cases coming
  rfl

/-- One of the two can go on, until all is quiet. -/
theorem Phase.exists_step {active : List Call} (phase : Phase own now x active)
    (keys : List UInt8) :
    x.Quiet ∨ (∃ next, waiterStep x = some next) ∨ ∃ next, axiomStep keys x = some next := by
  cases phase with
  | pokes _ queue bytes stage nothing resting unread proper agree =>
    obtain ⟨idle, -⟩ | ⟨addr, data, stage, -⟩ := stage
    · rw [idle] at unread
      have unread' : x.toAxiom = bytes ++ queue.flatMap Call.request := by
        rw [← unread]
        exact (List.append_nil _).symm
      cases todo : x.todo with
      | cons call rest =>
        refine .inr (.inl ?_)
        rw [waiterStep, idle, todo]
        dsimp only
        split
        · exact ⟨_, rfl⟩
        · exact ⟨_, rfl⟩
      | nil =>
        cases queue with
        | cons call queue =>
          refine .inr (.inr (resting.exists_step unread' fun _ => ?_))
          have long := five_le_request call
          rw [List.flatMap_cons, List.length_append]
          omega
        | nil =>
          by_cases polls : x.task = .polling
          · rw [polls] at resting
            cases resting
            exact .inl ⟨todo, idle, unread', nothing, polls⟩
          · exact .inr (.inr (resting.exists_step unread' fun polling => absurd polling polls))
    · refine .inr (.inl ?_)
      rw [waiterStep, stage]
      exact ⟨_, rfl⟩
  | asked call queue bytes stage nothing resting unread proper last agree =>
    refine .inr (.inr (resting.exists_step unread fun _ => ?_))
    rw [List.length_append, Quint.length_bytes]
    omega
  | replying call bytes stage nothing coming reply agree =>
    by_cases polls : x.task = .polling
    · rw [polls] at coming
      rw [coming.nil_of_polling, List.append_nil] at reply
      obtain ⟨q, rest, read⟩ := exists_readQuint (five_le_reply reply)
      refine .inr (.inl ?_)
      rw [waiterStep, stage]
      dsimp only
      rw [read]
      exact ⟨_, rfl⟩
    · exact .inr (.inr (coming.exists_step polls))
  | payload call n bytes stage nothing coming length payload agree =>
    by_cases polls : x.task = .polling
    · rw [polls] at coming
      rw [coming.nil_of_polling, List.append_nil] at length
      obtain ⟨z, rest, read⟩ := exists_readFull (Nat.le_of_eq length.symm)
      refine .inr (.inl ?_)
      rw [waiterStep, stage]
      dsimp only
      rw [read]
      exact ⟨_, rfl⟩
    · exact .inr (.inr (coming.exists_step polls))

/-! ### The end -/

/-- Neither end has met bytes that it did not expect. -/
theorem InFrame.expected (frame : InFrame own calls ram x) :
    x.stage ≠ .panicked ∧ x.task ≠ .fatal := by
  obtain ⟨finished, active, -, -, phase⟩ := frame.books
  have ofResting {bytes : List UInt8} (resting : Resting own x.task bytes) : x.task ≠ .fatal := by
    intro fatal
    rw [fatal] at resting
    cases resting
  have ofComing {call : Call} {bytes : List UInt8}
      (coming : Coming own x.ram call x.task bytes) : x.task ≠ .fatal := by
    intro fatal
    rw [fatal] at coming
    cases coming
  cases phase with
  | pokes _ queue bytes stage nothing resting =>
    refine ⟨fun panicked => ?_, ofResting resting⟩
    rw [panicked] at stage
    obtain ⟨wrong, -⟩ | ⟨_, _, wrong, -⟩ := stage <;> cases wrong
  | asked call queue bytes stage nothing resting =>
    exact ⟨fun panicked => (nomatch stage.symm.trans panicked), ofResting resting⟩
  | replying call bytes stage nothing coming =>
    exact ⟨fun panicked => (nomatch stage.symm.trans panicked), ofComing coming⟩
  | payload call n bytes stage nothing coming =>
    exact ⟨fun panicked => (nomatch stage.symm.trans panicked), ofComing coming⟩

theorem InFrame.quiet (frame : InFrame own calls ram x) (quiet : x.Quiet) :
    Answered ram calls x.results ∧ Agree own x.ram (afterAll ram calls) := by
  obtain ⟨finished, active, same, answered, phase⟩ := frame.books
  obtain ⟨todo, idle, toAxiom, toWaiter, polls⟩ := quiet
  cases phase with
  | pokes _ queue bytes stage nothing resting unread proper agree =>
    rw [idle] at stage unread
    obtain ⟨-, rfl⟩ | ⟨_, _, wrong, -⟩ := stage
    · rw [todo, List.append_nil, List.append_nil] at same
      subst same
      rw [polls] at resting agree
      cases resting
      rw [toAxiom] at unread
      cases queue with
      | nil =>
        rw [List.append_nil] at agree
        exact ⟨answered, agree⟩
      | cons call queue =>
        have long := five_le_request call
        have none : ([] ++ Stage.idle.unwritten : List UInt8).length = 0 := rfl
        rw [unread, List.nil_append, List.flatMap_cons, List.length_append] at none
        omega
    · cases wrong
  | asked call queue bytes stage => rw [idle] at stage; cases stage
  | replying call bytes stage => rw [idle] at stage; cases stage
  | payload call n bytes stage => rw [idle] at stage; cases stage

/-- Whatever the calls, and in whatever order the two ends go on: both streams stay in frame and
neither end meets bytes it does not expect; some end can go on until all is quiet, and only so
often; and when all is quiet every call has returned, with the bytes that were in RAM when its
turn came, and RAM is as the pokes leave it. -/
theorem conversation_agrees (occupied : ∃ a < SPACE, own a = true)
    (proper : ∀ call ∈ calls, call.Proper own) (ram : Nat → UInt8) {actions : List Action}
    (reached : run (step own) (start calls ram) actions = some x) :
    InFrame own calls ram x ∧ (x.stage ≠ .panicked ∧ x.task ≠ .fatal) ∧
      (actions.filter Action.onward).length ≤ (calls.map Call.work).sum ∧
      (¬x.Quiet → ∀ keys, keys.length = 8 →
        ∃ action ∈ [Action.waiter, .axiom41 keys], ∃ next, step own x action = some next) ∧
      (x.Quiet → Answered ram calls x.results ∧ Agree own x.ram (afterAll ram calls)) := by
  have frame := inFrame_of_run occupied proper reached
  refine ⟨frame, frame.expected, ?_, ?_, frame.quiet⟩
  · exact (inFrame_start ram proper).bounded occupied reached
  · intro busy keys eight
    obtain ⟨finished, active, -, -, phase⟩ := frame.books
    rcases phase.exists_step keys with quiet | ⟨next, taken⟩ | ⟨next, taken⟩
    · exact absurd quiet busy
    · exact ⟨.waiter, List.mem_cons_self, next, taken⟩
    · refine ⟨.axiom41 keys, List.mem_cons_of_mem _ List.mem_cons_self, next, ?_⟩
      rw [step, if_pos eight]
      exact taken

/-- Axiom is at address 0, and nowhere else. -/
def ownZero : Nat → Bool := fun a => a == 0

theorem clear_ownZero {addr n : Nat} (positive : 0 < addr) (fits : addr + n ≤ SPACE) :
    Clear ownZero addr n :=
  ⟨fits, fun _ low _ => beq_false_of_ne (by omega)⟩

def pokeAndPeek : List Call := [.pokeRam 16 [1, 2], .peekRam 17 2]

/-- Axiom's own bytes change while it is in the poke. -/
def pokeAndPeekRun : List Action :=
  List.replicate 3 .waiter ++ List.replicate 2 (.axiom41 (List.replicate 8 0)) ++
    [.own fun _ => 9] ++ List.replicate 4 (.axiom41 (List.replicate 8 0)) ++
    List.replicate 2 .waiter

theorem conversation_agrees_pokeAndPeek :
    ∃ x, run (step ownZero) (start pokeAndPeek fun _ => 7) pokeAndPeekRun = some x ∧
      x.results = [.poked, .bytes [2, 7]] ∧
      Agree ownZero x.ram (afterAll (fun _ => 7) pokeAndPeek) := by
  have runs : (run (step ownZero) (start pokeAndPeek fun _ => 7) pokeAndPeekRun).map
      (fun x => ((x.results, x.todo, x.stage), x.toAxiom, x.toWaiter, x.task)) =
        some (([.poked, .bytes [2, 7]], [], .idle), [], [], .polling) := by
    decide +kernel
  obtain ⟨x, reached, same⟩ := Option.map_eq_some_iff.mp runs
  simp only [Prod.mk.injEq] at same
  obtain ⟨⟨results, todo, stage⟩, quiet⟩ := same
  have proper : ∀ call ∈ pokeAndPeek, call.Proper ownZero := by
    intro call member
    rcases List.mem_cons.mp member with rfl | member
    · exact ⟨by decide, clear_ownZero (by decide) (by decide)⟩
    · rw [List.mem_singleton.mp member]
      exact ⟨by decide, clear_ownZero (by decide) (by decide)⟩
  have agrees := conversation_agrees ⟨0, by decide, rfl⟩ proper (fun _ => 7) reached
  exact ⟨x, reached, results, (agrees.2.2.2.2 ⟨todo, stage, quiet⟩).2⟩

/-! ### A sum that does not end -/

/-- What stays as it is once the waiter asks for the sum of the byte at the even address below the
last one. -/
inductive Summing (x : State) : Prop
  | before (todo : ∃ later, x.todo = .checkSum16Ram 65534 1 :: later) (stage : x.stage = .idle)
      (toAxiom : x.toAxiom = []) (task : x.task = .polling)
  | asked (stage : x.stage = .header (.checkSum16Ram 65534 1))
      (toAxiom : x.toAxiom = (newQuint Coms.CMD_SUM 1 65534).bytes) (task : x.task = .polling)
  | summing (begin_ sum : Nat) (stage : x.stage = .header (.checkSum16Ram 65534 1))
      (even : begin_ % 2 = 0) (below : begin_ < 65535) (task : x.task = .checkSum16 begin_ 65535 sum)

theorem Summing.step {action : Action} (summing : Summing x)
    (waits : x.results = [] ∧ x.toWaiter = []) (taken : Remote.step own x action = some next) :
    Summing next ∧ next.results = [] ∧ next.toWaiter = [] := by
  obtain ⟨none, silent⟩ := waits
  cases action with
  | own bytes =>
    cases taken
    refine ⟨?_, none, silent⟩
    cases summing with
    | before todo stage toAxiom task => exact .before todo stage toAxiom task
    | asked stage toAxiom task => exact .asked stage toAxiom task
    | summing begin_ sum stage even below task => exact .summing begin_ sum stage even below task
  | waiter =>
    rw [Remote.step, waiterStep] at taken
    cases summing with
    | before todo stage toAxiom task =>
      obtain ⟨later, todo⟩ := todo
      rw [stage, todo] at taken
      cases taken
      refine ⟨.asked rfl ?_ task, none, silent⟩
      show x.toAxiom ++ _ = _
      rw [toAxiom]
      rfl
    | asked stage toAxiom task =>
      rw [stage, silent] at taken
      cases taken
    | summing begin_ sum stage even below task =>
      rw [stage, silent] at taken
      cases taken
  | axiom41 keys =>
    rw [Remote.step] at taken
    split at taken
    · rw [axiomStep] at taken
      cases summing with
      | before todo stage toAxiom task =>
        rw [task, toAxiom] at taken
        cases taken
      | asked stage toAxiom task =>
        rw [task, toAxiom] at taken
        dsimp only at taken
        rw [← List.append_nil (newQuint _ _ _).bytes, readQuint_bytes] at taken
        cases taken
        rw [show newQuint Coms.CMD_SUM 1 65534 = (Call.checkSum16Ram 65534 1).quint from rfl,
          lemmaClientS1_checkSum16Ram _ _ (by decide) (by decide)]
        exact ⟨.summing 65534 0 stage rfl (by decide) rfl, none, silent⟩
      | summing begin_ sum stage even below task =>
        rw [task] at taken
        dsimp only at taken
        rw [if_pos below] at taken
        cases taken
        refine ⟨.summing _ _ stage ?_ ?_ rfl, none, silent⟩
        · rw [SPACE]
          omega
        · rw [SPACE]
          omega
    · cases taken

/-- Axiom goes round the addresses for ever, and neither the sum nor the bytes that the waiter
wants to peek after it ever come. -/
theorem not_agrees_sumToLast :
    (0 < 1 ∧ Clear ownZero 65534 1) ∧ (0 < 2 ∧ Clear ownZero 16 2) ∧
      ∀ actions x, run (step ownZero)
        (start [.checkSum16Ram 65534 1, .peekRam 16 2] fun _ => 7) actions = some x →
          x.results = [] ∧ ¬x.Quiet := by
  refine ⟨⟨by decide, clear_ownZero (by decide) (by decide)⟩,
    ⟨by decide, clear_ownZero (by decide) (by decide)⟩, fun actions x reached => ?_⟩
  obtain ⟨summing, none, silent⟩ := invariant_of_run
    (fun x => Summing x ∧ x.results = [] ∧ x.toWaiter = [])
    (fun _ _ _ before _ taken => before.1.step before.2 taken)
    ⟨.before ⟨_, rfl⟩ rfl rfl rfl, rfl, rfl⟩ (meets_true _ _) reached
  refine ⟨none, fun quiet => ?_⟩
  cases summing with
  | before todo stage toAxiom task =>
    obtain ⟨later, todo⟩ := todo
    cases todo.symm.trans quiet.1
  | asked stage toAxiom task => cases stage.symm.trans quiet.2.1
  | summing begin_ sum stage even below task => cases stage.symm.trans quiet.2.1

end Frobio.Remote
