/-
This file shows that every step of a conversation keeps it in frame: the steps of the
waiter, the steps of Axiom, and the changes of Axiom's own bytes.
-/

import Frobio.Lib.Run
import Frobio.Remote.Frame

namespace Frobio.Remote

open Coms Memory Ring Run

variable {own : Nat → Bool} {calls : List Call} {ram now : Nat → UInt8} {x next : State}

/-! ### The waiter -/

theorem afterAll_concat (ram : Nat → UInt8) (calls : List Call) (call : Call) :
    afterAll ram (calls ++ [call]) = call.after (afterAll ram calls) :=
  afterAll_append ram calls [call]

/-- The waiter begins a call. -/
theorem Phase.begin_ {call : Call} (phase : Phase own now x []) (idle : x.stage = .idle)
    (proper : call.Proper own) (todo : List Call) {stage : Stage}
    (stage_eq : stage = match call with
      | .pokeRam _ data => .data data
      | call => .header call) :
    Phase own (call.after now)
      { x with todo, stage, toAxiom := x.toAxiom ++ call.quint.bytes } [call] := by
  obtain ⟨active, queue, bytes, -, nothing, resting, unread, pokes, agree⟩ := phase
  rw [idle] at unread
  have unread' : x.toAxiom = bytes ++ queue.flatMap Call.request := by
    rw [← unread]
    exact (List.append_nil _).symm
  cases call with
  | pokeRam addr data =>
    refine .pokes _ (queue ++ [.pokeRam addr data]) bytes
      (.inr ⟨addr, data, stage_eq, rfl⟩) nothing resting ?_ ?_ ?_
    · dsimp only
      rw [stage_eq, unread', List.flatMap_append, List.flatMap_singleton, Call.request]
      simp only [Stage.unwritten, List.append_assoc]
    · intro other member
      rcases List.mem_append.mp member with old | new
      · exact pokes other old
      · rw [List.mem_singleton.mp new]
        exact ⟨proper, trivial⟩
    · rw [afterAll_concat]
      exact agree.after _
  | peekRam addr n =>
    refine .asked _ queue bytes stage_eq nothing resting ?_ pokes ⟨proper, id⟩ agree
    dsimp only
    rw [unread', List.append_assoc]
  | checkSum16Ram addr n =>
    refine .asked _ queue bytes stage_eq nothing resting ?_ pokes ⟨proper, id⟩ agree
    dsimp only
    rw [unread', List.append_assoc]
  | scanKeyboard =>
    refine .asked _ queue bytes stage_eq nothing resting ?_ pokes ⟨proper, id⟩ agree
    dsimp only
    rw [unread', List.append_assoc]

/-- The waiter writes the data of a poke, and returns. -/
theorem Phase.wrote {active : List Call} {data : List UInt8} (phase : Phase own now x active)
    (stage : x.stage = .data data) :
    (∃ addr, active = [.pokeRam addr data]) ∧
      ∀ results, Phase own now
        { x with stage := .idle, toAxiom := x.toAxiom ++ data, results } [] := by
  cases phase with
  | pokes _ queue bytes stage' nothing resting unread pokes agree =>
    rw [stage] at stage' unread
    obtain ⟨idle, -⟩ | ⟨addr, data', same, rfl⟩ := stage'
    · cases idle
    · cases same
      refine ⟨⟨addr, rfl⟩, fun results => ?_⟩
      refine .pokes _ queue bytes (.inl ⟨rfl, rfl⟩) nothing resting ?_ pokes agree
      exact (List.append_nil _).trans unread
  | asked call queue bytes stage' => rw [stage] at stage'; cases stage'
  | replying call bytes stage' => rw [stage] at stage'; cases stage'
  | payload call n bytes stage' => rw [stage] at stage'; cases stage'

theorem Coming.resting {call : Call} {task : Task} (coming : Coming own ram call task []) :
    Resting own task [] := by
  generalize same : ([] : List UInt8) = bytes at coming
  cases coming with
  | polling => exact .polling
  | peeked _ p => exact .peeked p
  | peeking _ p n clear =>
    have length := congrArg List.length same
    rw [length_load] at length
    obtain rfl : n = 0 := length.symm
    exact .peeked p
  | summing addr n begin_ end_ sum sum' => cases same
  | replying _ keys eight => rw [← same] at eight; cases eight

theorem settled_of_coming {call : Call} {task : Task} {bytes : List UInt8}
    (coming : Coming own ram call task bytes) (ram' : Nat → UInt8) (bytes' : List UInt8) :
    settled ram' bytes' task = ram' := by
  cases coming <;> rfl

/-- Nothing of a reply is left. -/
theorem Phase.answered {call : Call} (nothing : x.toAxiom = [])
    (coming : Coming own x.ram call x.task [])
    (agree : Agree own x.ram now) (results : List Result) :
    Phase own now { x with stage := .idle, toWaiter := [], results } [] := by
  refine .pokes _ [] [] (.inl ⟨rfl, rfl⟩) rfl coming.resting ?_ nofun ?_
  · show x.toAxiom ++ [] = []
    rw [nothing]
    rfl
  · show Agree own (settled x.ram [] x.task) now
    rw [settled_of_coming coming]
    exact agree

/-- The waiter reads the first five bytes of a reply. -/
theorem Phase.read {active : List Call} {call : Call} {q : Quint} {rest : List UInt8}
    (phase : Phase own now x active) (stage : x.stage = .header call)
    (read : readQuint x.toWaiter = some (q, rest)) :
    active = [call] ∧
      ((∃ n, call.header q = (.payload n, []) ∧
          ∀ results, Phase own now { x with toWaiter := rest, stage := .payload n, results }
            [call]) ∨
        ∃ result, call.header q = (.idle, [result]) ∧ call.Answer now result ∧
          (∀ ram, call.after ram = ram) ∧
          ∀ results, Phase own now { x with toWaiter := rest, stage := .idle, results } []) := by
  rw [readQuint_eq_some] at read
  cases phase with
  | pokes _ queue bytes stage' =>
    rw [stage] at stage'
    obtain ⟨same, -⟩ | ⟨addr, data, same, -⟩ := stage'
    · cases same
    · cases same
  | asked call' queue bytes stage' nothing =>
    rw [nothing] at read
    cases q
    cases read
  | payload call' n bytes stage' => rw [stage] at stage'; cases stage'
  | replying call' bytes stage' nothing coming reply agree =>
    rw [stage, Stage.header.injEq] at stage'
    subst stage'
    refine ⟨rfl, ?_⟩
    rw [read, List.append_assoc] at reply
    cases call with
    | pokeRam addr data => exact reply.elim
    | peekRam addr n =>
      obtain ⟨rfl, rest_eq⟩ := bytes_append_inj reply
      refine .inl ⟨n, ?_, fun results => ?_⟩
      · rw [Call.header]
        exact if_pos rfl
      refine .payload _ n bytes rfl nothing coming ?_ rest_eq agree
      show (rest ++ bytes).length = n
      rw [rest_eq, length_load]
    | checkSum16Ram addr n =>
      obtain ⟨sum, same⟩ := reply
      rw [← List.append_nil (newQuint _ _ _).bytes] at same
      obtain ⟨rfl, none⟩ := bytes_append_inj same
      obtain ⟨rfl, rfl⟩ := List.append_eq_nil_iff.mp none
      refine .inr ⟨.sum (hiLo (hi sum) (lo sum)), ?_, trivial, fun _ => rfl, Phase.answered nothing coming agree⟩
      rw [Call.header]
      exact if_pos rfl
    | scanKeyboard =>
      obtain ⟨keys, eight, same⟩ := reply
      obtain ⟨rfl, rest_eq⟩ := bytes_append_inj same
      refine .inl ⟨8, ?_, fun results => ?_⟩
      · rw [Call.header, if_neg (by decide), if_neg (by decide)]
      · refine .payload _ 8 bytes rfl nothing coming ?_ ?_ agree
        · show (rest ++ bytes).length = 8
          rw [rest_eq, eight]
        · show (rest ++ bytes).length = 8
          rw [rest_eq, eight]

/-- The waiter reads the rest of a reply, and returns. -/
theorem Phase.readRest {active : List Call} {n : Nat} {z rest : List UInt8}
    (phase : Phase own now x active) (stage : x.stage = .payload n)
    (read : readFull n x.toWaiter = some (z, rest)) :
    ∃ call, active = [call] ∧ call.Answer now (.bytes z) ∧ (∀ ram, call.after ram = ram) ∧
      ∀ results, Phase own now { x with toWaiter := rest, stage := .idle, results } [] := by
  cases phase with
  | pokes _ queue bytes stage' =>
    rw [stage] at stage'
    obtain ⟨same, -⟩ | ⟨addr, data, same, -⟩ := stage'
    · cases same
    · cases same
  | asked call' queue bytes stage' => rw [stage] at stage'; cases stage'
  | replying call' bytes stage' => rw [stage] at stage'; cases stage'
  | payload call n' bytes stage' nothing coming length payload agree =>
    rw [stage, Stage.payload.injEq] at stage'
    subst stage'
    obtain ⟨split, whole⟩ := readFull_eq_some.mp read
    have none : rest = [] ∧ bytes = [] := by
      rw [split, List.length_append, List.length_append] at length
      exact ⟨List.length_eq_zero_iff.mp (by omega), List.length_eq_zero_iff.mp (by omega)⟩
    obtain ⟨rfl, rfl⟩ := none
    rw [split, List.append_nil, List.append_nil] at payload
    refine ⟨call, rfl, ?_, ?_, Phase.answered nothing coming agree⟩
    · cases call with
      | pokeRam addr data => exact payload.elim
      | checkSum16Ram addr n => exact payload.elim
      | peekRam addr n => exact payload
      | scanKeyboard => exact payload
    · cases call with
      | pokeRam addr data => exact payload.elim
      | _ => exact fun _ => rfl

theorem InFrame.waiter (frame : InFrame own calls ram x) (taken : waiterStep x = some next) :
    InFrame own calls ram next := by
  obtain ⟨finished, active, same, answered, phase⟩ := frame.books
  rw [waiterStep] at taken
  split at taken
  · rename_i idle
    split at taken
    · cases taken
    rename_i call todo todo_eq
    have none : active = [] := by
      cases phase with
      | pokes _ queue bytes stage =>
        rw [idle] at stage
        obtain ⟨-, none⟩ | ⟨addr, data, wrong, -⟩ := stage
        · exact none
        · cases wrong
      | asked call queue bytes stage => rw [idle] at stage; cases stage
      | replying call bytes stage => rw [idle] at stage; cases stage
      | payload call n bytes stage => rw [idle] at stage; cases stage
    subst none
    rw [List.append_nil] at same phase
    have proper : call.Proper own := frame.proper call (by
      rw [same, todo_eq]
      exact List.mem_append_right _ List.mem_cons_self)
    refine ⟨frame.proper, finished, [call], ?_, ?_, ?_⟩
    · rw [same, todo_eq, List.append_assoc]
      dsimp only at taken
      split at taken <;> cases taken <;> rfl
    · dsimp only at taken
      split at taken <;> cases taken <;> exact answered
    · rw [afterAll_concat]
      dsimp only at taken
      split at taken
      · cases taken
        exact phase.begin_ idle proper todo rfl
      · rename_i other
        cases taken
        refine phase.begin_ idle proper todo ?_
        cases call with
        | pokeRam addr data => exact absurd rfl (other addr data)
        | _ => rfl
  · rename_i data stage
    cases taken
    obtain ⟨⟨addr, rfl⟩, after⟩ := phase.wrote stage
    refine ⟨frame.proper, finished ++ [.pokeRam addr data], [], ?_, ?_, ?_⟩
    · rw [same, List.append_nil]
    · exact answered.append trivial
    · rw [List.append_nil]
      exact after _
  · rename_i call stage
    split at taken
    · cases taken
    rename_i q rest read
    cases taken
    obtain ⟨rfl, ⟨n, header, after⟩ | ⟨result, header, answer, still, after⟩⟩ :=
      phase.read stage read
    · refine ⟨frame.proper, finished, [call], same, ?_, ?_⟩
      · show Answered ram finished (x.results ++ _)
        rw [header, List.append_nil]
        exact answered
      · rw [header]
        exact after _
    · rw [afterAll_concat, still] at answer
      refine ⟨frame.proper, finished ++ [call], [], ?_, ?_, ?_⟩
      · rw [same, List.append_nil]
      · show Answered ram (finished ++ [call]) (x.results ++ _)
        rw [header]
        exact answered.append answer
      · rw [header, List.append_nil]
        exact after _
  · rename_i n stage
    split at taken
    · cases taken
    rename_i z rest read
    cases taken
    obtain ⟨call, rfl, answer, still, after⟩ := phase.readRest stage read
    rw [afterAll_concat, still] at answer
    refine ⟨frame.proper, finished ++ [call], [], ?_, answered.append answer, ?_⟩
    · rw [same, List.append_nil]
    · rw [List.append_nil]
      exact after _
  · cases taken

/-! ### Axiom -/

/-- What Axiom leaves to the waiter. -/
structure Beside (x next : State) : Prop where
  todo : next.todo = x.todo
  stage : next.stage = x.stage
  results : next.results = x.results

theorem chunkOf_le (n : Nat) : chunkOf n ≤ n := by
  rw [chunkOf]
  split
  · exact Nat.le_refl n
  · omega

/-- Memory that is clear stays so without its beginning, which a pointer of 16 bits moves past. -/
theorem Clear.drop {p n k : Nat} (clear : Clear own p n) (some : k ≤ n) (left : n - k ≠ 0) :
    (p + k) % SPACE = p + k ∧ Clear own (p + k) (n - k) := by
  have fits := clear.1
  refine ⟨Nat.mod_eq_of_lt (by omega), by omega, fun a low high => ?_⟩
  exact clear.2 a (by omega) (by omega)

/-- Axiom goes on with a poke, or is done with what it did. -/
theorem Resting.step {keys bytes more rest : List UInt8} (resting : Resting own x.task bytes)
    (unread : x.toAxiom ++ more = bytes ++ rest) (busy : x.task ≠ .polling)
    (taken : axiomStep keys x = some next) :
    ∃ bytes', Resting own next.task bytes' ∧ next.toAxiom ++ more = bytes' ++ rest ∧
      settled next.ram bytes' next.task = settled x.ram bytes x.task ∧
      Beside x next ∧ next.toWaiter = x.toWaiter := by
  rw [axiomStep] at taken
  generalize task : x.task = task at resting taken busy
  cases resting with
  | polling => exact absurd rfl busy
  | peeked p =>
    cases taken
    exact ⟨[], .polling, unread, rfl, ⟨rfl, rfl, rfl⟩, rfl⟩
  | poked p =>
    cases taken
    exact ⟨[], .polling, unread, (store_nil x.ram p).symm, ⟨rfl, rfl, rfl⟩, rfl⟩
  | poking p bytes clear =>
    dsimp only at taken
    split at taken
    · rename_i done
      cases taken
      obtain rfl := List.length_eq_zero_iff.mp done
      exact ⟨[], .polling, unread, (store_nil x.ram p).symm, ⟨rfl, rfl, rfl⟩, rfl⟩
    · rename_i going
      split at taken
      · cases taken
      rename_i data toAxiom read
      cases taken
      obtain ⟨split, length⟩ := readFull_eq_some.mp read
      have least := chunkOf_le bytes.length
      rw [split, List.append_assoc] at unread
      have first : bytes.take (chunkOf bytes.length) = data := by
        have taken := congrArg (List.take (chunkOf bytes.length)) unread
        rw [List.take_left' length, List.take_append_of_le_length least] at taken
        exact taken.symm
      have second : bytes = data ++ bytes.drop (chunkOf bytes.length) := by
        rw [← first, List.take_append_drop]
      have still : toAxiom ++ more = bytes.drop (chunkOf bytes.length) ++ rest := by
        conv_rhs at unread => rw [second, List.append_assoc]
        exact List.append_cancel_left unread
      have stored : put 0 SPACE x.ram p data = store x.ram p data := by
        rw [put_eq_store (by have := clear.1; omega), Nat.zero_add]
      have left : (bytes.drop (chunkOf bytes.length)).length = bytes.length - chunkOf bytes.length :=
        List.length_drop
      generalize bytes.drop (chunkOf bytes.length) = bytes' at second still left
      refine ⟨bytes', ?_, still, ?_, ⟨rfl, rfl, rfl⟩, rfl⟩
      · dsimp only
        by_cases finished : bytes.length - chunkOf bytes.length = 0
        · rw [finished] at left ⊢
          rw [List.length_eq_zero_iff.mp left]
          exact .poked _
        · obtain ⟨straight, clear'⟩ := clear.drop least finished
          rw [straight]
          rw [← left] at clear' ⊢
          exact .poking _ _ clear'
      · show store (put 0 SPACE x.ram p data) ((p + chunkOf bytes.length) % SPACE) bytes' =
          store x.ram p bytes
        rw [stored]
        by_cases finished : bytes.length - chunkOf bytes.length = 0
        · rw [finished] at left
          rw [List.length_eq_zero_iff.mp left, List.append_nil] at second
          rw [List.length_eq_zero_iff.mp left, store_nil, second]
        · rw [(clear.drop least finished).1, ← length, store_append, ← second]

/-- Some of the addresses are Axiom's own, so no call is about all of them. -/
theorem Clear.small (occupied : ∃ a < SPACE, own a = true) {addr n : Nat}
    (clear : Clear own addr n) : n < SPACE := by
  obtain ⟨a, below, taken⟩ := occupied
  by_contra all
  have fits := clear.1
  rw [clear.2 a (by omega) (by omega)] at taken
  cases taken

/-- Axiom takes the quint of a poke. -/
theorem lemmaClientS1_pokeRam (x : State) (keys : List UInt8) {addr : Nat} {data : List UInt8}
    (small : addr < 65536) (short : data.length < 65536) :
    lemmaClientS1 x (Call.pokeRam addr data).quint keys =
      { x with task := .poke addr data.length } := by
  have kind : (newQuint Coms.CMD_POKE data.length addr).q0 = CMD_POKE := rfl
  rw [lemmaClientS1, Call.quint, if_pos kind, p_newQuint, n_newQuint, Nat.mod_eq_of_lt small,
    Nat.mod_eq_of_lt short]

theorem lemmaClientS1_peekRam (x : State) (keys : List UInt8) {addr n : Nat}
    (small : addr < 65536) (short : n < 65536) :
    lemmaClientS1 x (Call.peekRam addr n).quint keys =
      { x with
        toWaiter := x.toWaiter ++ (newQuint Coms.CMD_DATA n addr).bytes
        task := .peek addr n } := by
  have kind : (newQuint Coms.CMD_PEEK n addr).q0 = CMD_PEEK := rfl
  rw [lemmaClientS1, Call.quint, kind, if_neg (by decide), if_neg (by decide), if_neg (by decide),
    if_pos rfl, p_newQuint, n_newQuint, Nat.mod_eq_of_lt small, Nat.mod_eq_of_lt short]
  rfl

theorem lemmaClientS1_checkSum16Ram (x : State) (keys : List UInt8) {addr n : Nat}
    (small : addr < 65536) (short : n < 65536) :
    lemmaClientS1 x (Call.checkSum16Ram addr n).quint keys =
      { x with task := .checkSum16 addr ((addr + n) % SPACE) 0 } := by
  have kind : (newQuint Coms.CMD_SUM n addr).q0 = CMD_SUM := rfl
  rw [lemmaClientS1, Call.quint, kind, if_neg (by decide), if_neg (by decide), if_pos rfl,
    p_newQuint, n_newQuint, Nat.mod_eq_of_lt small, Nat.mod_eq_of_lt short]

theorem lemmaClientS1_scanKeyboard (x : State) (keys : List UInt8) :
    lemmaClientS1 x Call.scanKeyboard.quint keys =
      { x with
        toWaiter := x.toWaiter ++ (newQuint Coms.CMD_KEYBOARD 8 0).bytes
        task := .reply keys } := rfl

theorem Phase.axiom_pokes (occupied : ∃ a < SPACE, own a = true) {keys : List UInt8}
    {active queue : List Call} {bytes : List UInt8}
    (stage : x.stage = .idle ∧ active = [] ∨
      ∃ addr data, x.stage = .data data ∧ active = [.pokeRam addr data])
    (nothing : x.toWaiter = []) (resting : Resting own x.task bytes)
    (unread : x.toAxiom ++ x.stage.unwritten = bytes ++ queue.flatMap Call.request)
    (proper : ∀ call ∈ queue, call.Proper own ∧ call.IsPoke)
    (agree : Agree own (afterAll (settled x.ram bytes x.task) queue) now)
    (taken : axiomStep keys x = some next) : Beside x next ∧ Phase own now next active := by
  by_cases polls : x.task = .polling
  · rw [polls] at resting agree
    cases resting
    rw [axiomStep, polls] at taken
    dsimp only at taken
    split at taken
    · cases taken
    rename_i q toAxiom read
    cases taken
    rw [readQuint_eq_some.mp read, List.nil_append, List.append_assoc] at unread
    cases queue with
    | nil =>
      cases q
      cases unread
    | cons call queue =>
      cases call with
      | pokeRam addr data =>
        obtain ⟨⟨positive, clear⟩, -⟩ := proper _ List.mem_cons_self
        rw [List.flatMap_cons, Call.request, List.append_assoc] at unread
        obtain ⟨rfl, rest⟩ := bytes_append_inj unread
        have fits := clear.1
        rw [lemmaClientS1_pokeRam _ _ (by rw [SPACE] at fits; omega) (clear.small occupied)]
        exact ⟨⟨rfl, rfl, rfl⟩, .pokes _ queue data stage nothing (.poking addr data clear) rest
          (fun other member => proper other (List.mem_cons_of_mem _ member)) agree⟩
      | peekRam addr n => exact (proper _ List.mem_cons_self).2.elim
      | checkSum16Ram addr n => exact (proper _ List.mem_cons_self).2.elim
      | scanKeyboard => exact (proper _ List.mem_cons_self).2.elim
  · obtain ⟨bytes', resting', unread', settled', beside, waits⟩ :=
      resting.step unread polls taken
    refine ⟨beside, .pokes _ queue bytes' ?_ (waits.trans nothing) resting' ?_ proper ?_⟩
    · rw [beside.stage]
      exact stage
    · rw [beside.stage]
      exact unread'
    · rw [settled']
      exact agree

theorem Phase.axiom_asked (occupied : ∃ a < SPACE, own a = true) {keys : List UInt8}
    (eight : keys.length = 8) {call : Call} {queue : List Call} {bytes : List UInt8}
    (stage : x.stage = .header call) (nothing : x.toWaiter = [])
    (resting : Resting own x.task bytes)
    (unread : x.toAxiom = bytes ++ (queue.flatMap Call.request ++ call.quint.bytes))
    (proper : ∀ call ∈ queue, call.Proper own ∧ call.IsPoke)
    (last : call.Proper own ∧ ¬call.IsPoke)
    (agree : Agree own (afterAll (settled x.ram bytes x.task) queue) now)
    (taken : axiomStep keys x = some next) : Beside x next ∧ Phase own now next [call] := by
  by_cases polls : x.task = .polling
  · rw [polls] at resting agree
    cases resting
    rw [axiomStep, polls] at taken
    dsimp only at taken
    split at taken
    · cases taken
    rename_i q toAxiom read
    cases taken
    rw [readQuint_eq_some.mp read, List.nil_append] at unread
    cases queue with
    | cons first queue =>
      cases first with
      | pokeRam addr data =>
        obtain ⟨⟨positive, clear⟩, -⟩ := proper _ List.mem_cons_self
        rw [List.flatMap_cons, Call.request, List.append_assoc, List.append_assoc] at unread
        obtain ⟨rfl, rest⟩ := bytes_append_inj unread
        have fits := clear.1
        rw [lemmaClientS1_pokeRam _ _ (by rw [SPACE] at fits; omega) (clear.small occupied)]
        exact ⟨⟨rfl, rfl, rfl⟩, .asked _ queue data stage nothing (.poking addr data clear) rest
          (fun other member => proper other (List.mem_cons_of_mem _ member)) last agree⟩
      | peekRam addr n => exact (proper _ List.mem_cons_self).2.elim
      | checkSum16Ram addr n => exact (proper _ List.mem_cons_self).2.elim
      | scanKeyboard => exact (proper _ List.mem_cons_self).2.elim
    | nil =>
      rw [List.flatMap_nil, List.nil_append, ← List.append_nil call.quint.bytes] at unread
      obtain ⟨rfl, rfl⟩ := bytes_append_inj unread
      cases call with
      | pokeRam addr data => exact absurd trivial last.2
      | peekRam addr n =>
        obtain ⟨⟨positive, clear⟩, -⟩ := last
        have fits := clear.1
        have agree' : Agree own x.ram now := agree
        rw [lemmaClientS1_peekRam _ _ (by rw [SPACE] at fits; omega) (clear.small occupied)]
        refine ⟨⟨rfl, rfl, rfl⟩, .replying _ _ stage rfl (.peeking _ addr n clear) ?_ agree⟩
        show x.toWaiter ++ _ ++ load x.ram addr n = _
        rw [nothing, List.nil_append, agree'.load clear]
      | checkSum16Ram addr n =>
        obtain ⟨⟨positive, clear, ends⟩, -⟩ := last
        have fits := clear.1
        rw [lemmaClientS1_checkSum16Ram _ _ (by rw [SPACE] at fits; omega) (clear.small occupied)]
        refine ⟨⟨rfl, rfl, rfl⟩, .replying _ _ stage rfl (.summing addr n addr _ 0 0
          (Nat.mod_lt _ (by decide)) ?_) ⟨0, ?_⟩ agree⟩
        · intro wraps
          rw [SPACE] at fits wraps
          omega
        · show x.toWaiter ++ _ = _
          rw [nothing, List.nil_append]
      | scanKeyboard =>
        rw [lemmaClientS1_scanKeyboard]
        refine ⟨⟨rfl, rfl, rfl⟩, .replying _ _ stage rfl (.replying _ keys eight)
          ⟨keys, eight, ?_⟩ agree⟩
        show x.toWaiter ++ _ ++ keys = _
        rw [nothing, List.nil_append]
  · have unread' : x.toAxiom ++ [] = bytes ++ (queue.flatMap Call.request ++ call.quint.bytes) := by
      rw [List.append_nil, unread]
    obtain ⟨bytes', resting', unread', settled', beside, waits⟩ :=
      resting.step unread' polls taken
    rw [List.append_nil] at unread'
    refine ⟨beside, .asked _ queue bytes' ?_ (waits.trans nothing) resting' unread' proper last ?_⟩
    · rw [beside.stage]
      exact stage
    · rw [settled']
      exact agree

/-- Axiom goes on with its reply. -/
theorem Coming.step {call : Call} {keys bytes : List UInt8}
    (coming : Coming own x.ram call x.task bytes) (nothing : x.toAxiom = [])
    (taken : axiomStep keys x = some next) :
    Beside x next ∧ next.toAxiom = [] ∧ next.ram = x.ram ∧
      ∃ bytes', Coming own next.ram call next.task bytes' ∧
        (next.toWaiter ++ bytes' = x.toWaiter ++ bytes ∨
          ∃ addr n sum sum', call = .checkSum16Ram addr n ∧
            bytes = (newQuint Coms.CMD_SUM 0 sum).bytes ∧
            next.toWaiter ++ bytes' = x.toWaiter ++ (newQuint Coms.CMD_SUM 0 sum').bytes) := by
  rw [axiomStep] at taken
  generalize task : x.task = task at coming taken
  cases coming with
  | polling =>
    rw [nothing] at taken
    cases taken
  | peeked _ p =>
    cases taken
    exact ⟨⟨rfl, rfl, rfl⟩, nothing, rfl, [], .polling _, .inl rfl⟩
  | peeking _ p n clear =>
    dsimp only at taken
    split at taken
    · rename_i finished
      cases taken
      subst finished
      exact ⟨⟨rfl, rfl, rfl⟩, nothing, rfl, [], .polling _, .inl rfl⟩
    · rename_i going
      cases taken
      have least := chunkOf_le n
      have fits := clear.1
      have chunk : get 0 SPACE x.ram p (chunkOf n) = load x.ram p (chunkOf n) := by
        rw [get_eq_load (by omega), Nat.zero_add]
      refine ⟨⟨rfl, rfl, rfl⟩, nothing, rfl,
        load x.ram (p + chunkOf n) (n - chunkOf n), ?_, .inl ?_⟩
      · dsimp only
        by_cases finished : n - chunkOf n = 0
        · rw [finished]
          exact .peeked _ _
        · obtain ⟨straight, clear'⟩ := clear.drop least finished
          rw [straight]
          exact .peeking _ _ _ clear'
      · dsimp only
        rw [chunk, List.append_assoc, ← load_add, Nat.add_sub_cancel' least]
  | summing addr n begin_ end_ sum sum' below odd =>
    dsimp only at taken
    split at taken
    · rename_i going
      cases taken
      refine ⟨⟨rfl, rfl, rfl⟩, nothing, rfl, _,
        .summing addr n _ end_ _ sum' below fun last => ?_, .inl rfl⟩
      have := odd last
      rw [SPACE] at below ⊢
      omega
    · cases taken
      refine ⟨⟨rfl, rfl, rfl⟩, nothing, rfl, [], .polling _, .inr ⟨addr, n, sum', sum, rfl, rfl, ?_⟩⟩
      exact List.append_nil _
  | replying _ keys eight =>
    cases taken
    exact ⟨⟨rfl, rfl, rfl⟩, nothing, rfl, [], .polling _, .inl (List.append_nil _)⟩

theorem Phase.axiom41 (occupied : ∃ a < SPACE, own a = true) {keys : List UInt8}
    (eight : keys.length = 8) {active : List Call} (phase : Phase own now x active)
    (taken : axiomStep keys x = some next) : Beside x next ∧ Phase own now next active := by
  cases phase with
  | pokes _ queue bytes stage nothing resting unread proper agree =>
    exact Phase.axiom_pokes occupied stage nothing resting unread proper agree taken
  | asked call queue bytes stage nothing resting unread proper last agree =>
    exact Phase.axiom_asked occupied eight stage nothing resting unread proper last agree taken
  | replying call bytes stage nothing coming reply agree =>
    obtain ⟨beside, nothing', ram_eq, bytes', coming', total⟩ := coming.step nothing taken
    refine ⟨beside, .replying _ bytes' (beside.stage.trans stage) nothing' coming' ?_
      (ram_eq ▸ agree)⟩
    rcases total with same | ⟨addr, n, sum, sum', rfl, rfl, total⟩
    · rw [same]
      exact reply
    · obtain ⟨value, whole⟩ := reply
      have lengths := congrArg List.length whole
      rw [List.length_append, Quint.length_bytes, Quint.length_bytes] at lengths
      refine ⟨sum', ?_⟩
      rw [total, List.length_eq_zero_iff.mp (show x.toWaiter.length = 0 by omega)]
      rfl
  | payload call n bytes stage nothing coming length payload agree =>
    obtain ⟨beside, nothing', ram_eq, bytes', coming', total⟩ := coming.step nothing taken
    rcases total with same | ⟨addr, n', sum, sum', rfl, -, -⟩
    · exact ⟨beside, .payload _ n bytes' (beside.stage.trans stage) nothing' coming'
        (same ▸ length) (same ▸ payload) (ram_eq ▸ agree)⟩
    · exact payload.elim

/-! ### Steps -/

/-- A change of Axiom's own bytes is no change of the rest. -/
theorem agree_own (bytes ram : Nat → UInt8) :
    Agree own (fun a => if own a then bytes a else ram a) ram := by
  intro a clear
  show (if own a = true then bytes a else ram a) = ram a
  rw [clear]
  rfl

theorem Agree.settled {ram ram' : Nat → UInt8} (agree : Agree own ram ram') (bytes : List UInt8)
    (task : Task) : Agree own (settled ram bytes task) (Remote.settled ram' bytes task) := by
  cases task with
  | poke p n => exact agree.store p bytes
  | _ => exact agree

theorem Coming.changed {ram ram' : Nat → UInt8} {call : Call} {task : Task} {bytes : List UInt8}
    (coming : Coming own ram call task bytes) (agree : Agree own ram' ram) :
    Coming own ram' call task bytes := by
  cases coming with
  | polling => exact .polling call
  | peeked _ p => exact .peeked call p
  | peeking _ p n clear =>
    rw [← agree.load clear]
    exact .peeking call p n clear
  | summing addr n begin_ end_ sum sum' below odd =>
    exact .summing addr n begin_ end_ sum sum' below odd
  | replying _ keys eight => exact .replying call bytes eight

/-- Axiom changes its own bytes. -/
theorem Phase.changed {active : List Call} (phase : Phase own now x active)
    (bytes : Nat → UInt8) :
    Phase own now { x with ram := fun a => if own a then bytes a else x.ram a } active := by
  have change := @agree_own own bytes x.ram
  cases phase with
  | pokes _ queue rest stage nothing resting unread proper agree =>
    exact .pokes _ queue rest stage nothing resting unread proper
      (((change.settled rest x.task).afterAll queue).trans agree)
  | asked call queue rest stage nothing resting unread proper last agree =>
    exact .asked _ queue rest stage nothing resting unread proper last
      (((change.settled rest x.task).afterAll queue).trans agree)
  | replying call rest stage nothing coming reply agree =>
    exact .replying _ rest stage nothing (coming.changed change) reply (change.trans agree)
  | payload call n rest stage nothing coming length payload agree =>
    exact .payload _ n rest stage nothing (coming.changed change) length payload
      (change.trans agree)

/-- Every step keeps the conversation in frame. -/
theorem InFrame.step (occupied : ∃ a < SPACE, own a = true) (frame : InFrame own calls ram x)
    {action : Action} (taken : step own x action = some next) : InFrame own calls ram next := by
  cases action with
  | waiter => exact frame.waiter taken
  | axiom41 keys =>
    rw [Remote.step] at taken
    split at taken
    · rename_i eight
      obtain ⟨finished, active, same, answered, phase⟩ := frame.books
      obtain ⟨beside, phase'⟩ := phase.axiom41 occupied eight taken
      refine ⟨frame.proper, finished, active, ?_, ?_, phase'⟩
      · rw [beside.todo]
        exact same
      · rw [beside.results]
        exact answered
    · cases taken
  | own bytes =>
    cases taken
    obtain ⟨finished, active, same, answered, phase⟩ := frame.books
    exact ⟨frame.proper, finished, active, same, answered, phase.changed bytes⟩

theorem inFrame_of_run (occupied : ∃ a < SPACE, own a = true)
    (proper : ∀ call ∈ calls, call.Proper own) {actions : List Action}
    (reached : run (step own) (start calls ram) actions = some x) : InFrame own calls ram x :=
  invariant_of_run (InFrame own calls ram)
    (fun _ _ _ frame _ taken => frame.step occupied taken) (inFrame_start ram proper)
    (meets_true _ _) reached

end Frobio.Remote
