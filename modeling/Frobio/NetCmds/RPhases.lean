/-
This file is about where a running transfer stands in its conversation: `Phase`. Every step of a
fair run leads from phase to phase (`Phase.step`), and each leaves less to do; until the transfer is
over, there is a step to take (`Phase.progress`).
-/

import Frobio.NetCmds.RTurns

namespace Frobio.RCommand

open Coms SlashPath Mux Run

/-! ### The phases -/

/-- Nothing is on its way. -/
structure Still (s : State) : Prop where
  toServer : s.toServer = []
  arrived : s.arrived = []
  inFlight : s.inFlight = []

/-- The BEGIN of these arguments starts this goroutine. -/
def Called (host : Host) (channel : Nat) (args : List Text) (proc : Proc) : Prop :=
  ∃ name rest fn, argvOf (beginPayload args) = name :: rest ∧
    commandFuncs.lookup (toLower host name) = some fn ∧
    proc = ⟨channel, fn, name :: rest, .opened, .start⟩

/-- Where a transfer stands, and a bound on the steps it has left. -/
inductive Phase (host : Host) (channel : Nat) (good : Goal)
    (done : List Proc) : Nat → State → Prop
  | begins {s : State} {bound total : Nat} {args : List Text} {proc : Proc}
      (control : s.client.control = .begins args)
      (short : ([32].intercalate args).length ≤ MAX_MSG_LEN) (still : Still s)
      (quiet : Quiet s.session) (procs : s.session.procs = done)
      (called : Called host channel args proc)
      (starts : Starts host channel good total s.client.here s.remote proc)
      (cost : total + 16 ≤ bound) : Phase host channel good done bound s
  | begun {s : State} {bound total : Nat} {args : List Text} {proc : Proc}
      (control : s.client.control = .quint CMD_BEGIN_MUX)
      (short : ([32].intercalate args).length ≤ MAX_MSG_LEN)
      (sent : s.toServer = (Message.of CMD_BEGIN_MUX channel (beginPayload args)).bytes)
      (arrived : s.arrived = []) (inFlight : s.inFlight = [])
      (quiet : Quiet s.session) (procs : s.session.procs = done)
      (called : Called host channel args proc)
      (starts : Starts host channel good total s.client.here s.remote proc)
      (cost : total + 15 ≤ bound) : Phase host channel good done bound s
  | starting {s : State} {bound total : Nat} {proc : Proc}
      (control : s.client.control = .quint CMD_BEGIN_MUX) (still : Still s)
      (serving : Serving done channel s.session proc
        (.reply (.starting done.length) (replyQuint CMD_BEGIN_MUX channel muxGood) muxGood))
      (waits : Waits host channel good total s.client.here s.remote proc CMD_MID_MUX [])
      (cost : total + 13 + pending proc ≤ bound) : Phase host channel good done bound s
  | greeting {s : State} {bound total : Nat} {proc : Proc}
      (way : OnItsWay s CMD_BEGIN_MUX muxGood)
      (serving : Serving done channel s.session proc .ready)
      (waits : Waits host channel good total s.client.here s.remote proc CMD_MID_MUX [])
      (cost : total + 5 + pending proc + wayLeft s ≤ bound) : Phase host channel good done bound s
  | asking {s : State} {bound total : Nat} {proc : Proc} {tag : UInt8} {pay : Text}
      (control : s.client.control = .quint tag)
      (sent : s.toServer = (Message.of tag channel pay).bytes) (short : pay.length < 65536)
      (arrived : s.arrived = []) (inFlight : s.inFlight = [])
      (serving : Serving done channel s.session proc .ready)
      (waits : Waits host channel good total s.client.here s.remote proc tag pay)
      (cost : total + 4 + pending proc ≤ bound) : Phase host channel good done bound s
  | handing {s : State} {bound total : Nat} {proc : Proc} {tag : UInt8} {pay : Text}
      (control : s.client.control = .quint tag) (still : Still s)
      (serving : Serving done channel s.session proc (.send done.length channel tag pay))
      (waits : Waits host channel good total s.client.here s.remote proc tag pay)
      (cost : total + 3 + pending proc ≤ bound) : Phase host channel good done bound s
  | storing {s : State} {bound left : Nat} {proc : Proc} {src dest data pay' : Text}
      {here' : Local} {tag' : UInt8}
      (control : s.client.control = .quint CMD_MID_MUX) (still : Still s)
      (serving : Serving done channel s.session proc .ready)
      (takes : proc.stage = .take src dest data)
      (does : Does channel s.client.here (ascii "6") here' tag' pay')
      (onward : Talk host channel good left here'
        (Function.update s.remote (longName host dest) (s.remote (longName host dest) ++ data))
        (.packet src dest) tag' pay')
      (cost : left + 20 ≤ bound) : Phase host channel good done bound s
  | working {s : State} {bound left : Nat} {proc : Proc} {message pay' : Text} {next : Stage}
      {here' : Local} {tag' : UInt8}
      (control : s.client.control = .quint CMD_MID_MUX) (still : Still s)
      (serving : Serving done channel s.session proc .ready)
      (puts : proc.stage.puts host = some (CMD_MID_MUX, message, next))
      (does : Does channel s.client.here message here' tag' pay')
      (onward : Talk host channel good left here' s.remote next tag' pay')
      (cost : left + message.length + 14 ≤ bound) : Phase host channel good done bound s
  | telling {s : State} {bound left : Nat} {proc : Proc} {message pay' : Text}
      {here' : Local} {tag' : UInt8}
      (way : OnItsWay s CMD_MID_MUX message)
      (serving : Serving done channel s.session proc .ready)
      (does : Does channel s.client.here message here' tag' pay')
      (onward : Talk host channel good left here' s.remote proc.stage tag' pay')
      (cost : left + 5 + wayLeft s ≤ bound) : Phase host channel good done bound s
  | ending {s : State} {bound : Nat} {verdict : Text}
      (control : s.client.control = .quint CMD_END_MUX) (still : Still s)
      (closes : Closing done channel s.session (.exitEnded verdict)) (said : verdict ≠ [])
      (ends : good s.client.here.files s.remote verdict)
      (cost : verdict.length + 10 + closing s.session ≤ bound) : Phase host channel good done bound s
  | judging {s : State} {bound : Nat} {verdict : Text}
      (way : OnItsWay s CMD_END_MUX verdict)
      (closes : Closing done channel s.session .finished)
      (logged : .reply (.proc done.length) (replyQuint CMD_END_MUX channel verdict) verdict ∈
        s.session.log)
      (ends : good s.client.here.files s.remote verdict)
      (cost : wayLeft s + 1 + closing s.session ≤ bound) : Phase host channel good done bound s
  | ended {s : State} {bound : Nat} {verdict : Text}
      (control : s.client.control = .exited (if verdict.head? = some 43 then 0 else 255))
      (still : Still s) (closes : Closing done channel s.session .finished)
      (logged : .reply (.proc done.length) (replyQuint CMD_END_MUX channel verdict) verdict ∈
        s.session.log)
      (ends : good s.client.here.files s.remote verdict)
      (cost : closing s.session ≤ bound) : Phase host channel good done bound s

/-! ### What cannot happen -/

section

variable {host : Host} {s t : State} {done : List Proc} {channel : Nat} {proc : Proc} {loop : Loop}

theorem not_arrive {count : Nat} (nothing : s.inFlight = []) :
    step host s (.arrive count) ≠ some t := by
  rw [step, nothing, if_neg]
  · exact Option.some_ne_none t |>.symm
  · rw [List.length_nil]
    omega

theorem not_frame (nothing : s.toServer = []) : step host s .frame ≠ some t := by
  rw [step, nothing]
  exact (Option.some_ne_none t).symm

theorem not_client_of_quint {os9 : Os9} {cmd : UInt8} (control : s.client.control = .quint cmd)
    (nothing : s.arrived = []) : step host s (.client os9) ≠ some t := by
  rw [step, Client.next, control, nothing]
  exact (Option.some_ne_none t).symm

theorem not_loop {answer : Answer} (alive : s.session.crashed = false)
    (ready : s.session.loop = .ready) : step host s (.loop answer) ≠ some t := by
  rw [step, serve, Mux.step, if_neg (ne_true_of_eq_false alive), loopStep, ready]
  exact (Option.some_ne_none t).symm

theorem not_deliver (alive : s.session.crashed = false)
    (apart : ∀ id p tag pay, s.session.loop ≠ .send id p tag pay) :
    step host s .deliver ≠ some t := by
  rw [step, serve, Mux.step, if_neg (ne_true_of_eq_false alive), deliver]
  split
  · rename_i id p tag pay loop
    exact absurd loop (apart id p tag pay)
  · exact (Option.some_ne_none t).symm

theorem Serving.not_loop_of_send {answer : Answer} {tag : UInt8} {pay : Text}
    (serving : Serving done channel s.session proc (.send done.length channel tag pay)) :
    step host s (.loop answer) ≠ some t := by
  rw [step, serve, Mux.step, if_neg (ne_true_of_eq_false serving.alive), loopStep, serving.loop]
  dsimp only
  rw [serving.procs, getElem?_last, Option.bind_some, serving.opened]
  exact (Option.some_ne_none t).symm

/-- Only the last goroutine goes on. -/
theorem run_cases {id : Nat} {answer : Answer} (alive : s.session.crashed = false)
    (procs : s.session.procs = done ++ [proc]) (finished : ∀ other ∈ done, other.stage = .finished)
    (stepped : step host s (.run id answer) = some t) :
    id = done.length ∧ ∃ session,
      runStep host s.session done.length (outcomeOf host s.remote proc answer) = some session ∧
      t = { s with
        session
        remote := rewrites host s.remote proc answer
        inFlight := s.inFlight ++ bytesOf (written host s.session
          (.run done.length (outcomeOf host s.remote proc answer))) } := by
  rw [step] at stepped
  obtain ⟨other, found, stepped⟩ := Option.bind_eq_some_iff.mp stepped
  obtain ⟨session, taken, rfl⟩ := Option.map_eq_some_iff.mp stepped
  rw [Mux.step, if_neg (ne_true_of_eq_false alive)] at taken
  obtain rfl : id = done.length := by
    by_contra apart
    rw [runStep_of_ne _ procs finished apart] at taken
    cases taken
  obtain rfl : proc = other := by
    rw [procs, getElem?_last, Option.some_inj] at found
    exact found
  exact ⟨rfl, session, taken, rfl⟩

theorem Serving.not_run {id : Nat} {answer : Answer}
    (serving : Serving done channel s.session proc loop) (waits : proc.stage.expected ≠ none) :
    step host s (.run id answer) ≠ some t := by
  intro stepped
  obtain ⟨-, session, taken, -⟩ := run_cases serving.alive serving.procs serving.finished stepped
  rw [runStep_of_waits _ serving.procs (.inl ⟨waits, serving.opened⟩)] at taken
  cases taken

theorem Closing.not_run {id : Nat} {answer : Answer}
    (closes : Closing done channel s.session .finished) : step host s (.run id answer) ≠ some t := by
  intro stepped
  obtain ⟨proc, procs, -, finished, -⟩ := closes.procs
  obtain ⟨-, session, taken, -⟩ := run_cases closes.alive procs closes.finished stepped
  rw [runStep_of_waits _ procs (.inr finished)] at taken
  cases taken

theorem Quiet.not_run {id : Nat} {answer : Answer} (quiet : Quiet s.session) :
    step host s (.run id answer) ≠ some t := by
  rw [step]
  intro stepped
  obtain ⟨proc, found, stepped⟩ := Option.bind_eq_some_iff.mp stepped
  obtain ⟨session, taken, -⟩ := Option.map_eq_some_iff.mp stepped
  have finished := quiet.finished proc (List.mem_of_getElem? found)
  rw [Mux.step, if_neg (ne_true_of_eq_false quiet.alive), runStep, found, Option.bind_some] at taken
  simp [finished, Stage.puts, Stage.expected] at taken

end

/-! ### Steps -/

section

variable {host : Host} {s t : State} {done : List Proc} {channel : Nat} {proc : Proc} {loop : Loop}
  {good : Goal} {bound total left : Nat}

theorem channel_step {action : Action} (stepped : step host s action = some t) :
    t.client.channel = s.client.channel := by
  have served : ∀ {s' : State} {remote : Text → Text} {action : Mux.Action},
      serve host s' remote action = some t → t.client = s'.client := by
    intro s' remote action taken
    obtain ⟨session, -, rfl⟩ := Option.map_eq_some_iff.mp taken
    rfl
  cases action with
  | client os9 =>
    rw [step] at stepped
    obtain ⟨⟨⟨control, here, sent⟩, rest⟩, -, rfl⟩ := Option.map_eq_some_iff.mp stepped
    rfl
  | arrive count =>
    rw [step] at stepped
    split at stepped
    · obtain rfl := Option.some.inj stepped
      rfl
    · cases stepped
  | frame =>
    rw [step] at stepped
    obtain ⟨⟨q, rest⟩, -, stepped⟩ := Option.bind_eq_some_iff.mp stepped
    obtain ⟨⟨pay, rest⟩, -, stepped⟩ := Option.bind_eq_some_iff.mp stepped
    rw [served stepped]
  | run id answer =>
    rw [step] at stepped
    obtain ⟨proc, -, stepped⟩ := Option.bind_eq_some_iff.mp stepped
    rw [served stepped]
  | loop answer => rw [served stepped]
  | deliver => rw [served stepped]
  | timeout id => rw [served stepped]

/-- A goroutine that a request waits for can only start, and then waits for it. -/
theorem Waits.run {id : Nat} {answer : Answer} {tag : UInt8} {pay : Text}
    (waits : Waits host channel good total s.client.here s.remote proc tag pay)
    (serving : Serving done channel s.session proc loop) (fair : Fair s (.run id answer))
    (stepped : step host s (.run id answer) = some t) : ∃ session remote proc',
      t = { s with session, remote } ∧ Serving done channel session proc' loop ∧
        Waits host channel good total s.client.here remote proc' tag pay ∧
        pending proc' < pending proc := by
  rcases waits with talk | ⟨⟨starts, talks⟩, rfl, rfl⟩
  · refine absurd stepped (serving.not_run ?_)
    rw [talk.expected]
    exact Option.some_ne_none tag
  · obtain ⟨rfl, session, taken, rfl⟩ := run_cases serving.alive serving.procs serving.finished stepped
    obtain ⟨errors, ticks⟩ := fair
    have found : s.session.procs[done.length]? = some proc := by
      rw [serving.procs, getElem?_last]
    have nonzero : channel ≠ 0 := serving.channel ▸ ticks proc found starts
    obtain ⟨cuts, rfl⟩ : ∃ cuts, answer = .done cuts := by
      cases answer with
      | done cuts => exact ⟨cuts, rfl⟩
      | failed err => cases errors
      | stops cuts count err => cases errors
    have silent : written host s.session
        (.run done.length (outcomeOf host s.remote proc (.done cuts))) = none := by
      rw [written, found, Option.bind_some, starts]
      rfl
    have run := serving.run_start host (outcomeOf host s.remote proc (.done cuts)) starts nonzero
    rw [Mux.step, if_neg (ne_true_of_eq_false serving.alive), taken, Option.some_inj] at run
    subst run
    rw [silent, show bytesOf none = [] from rfl, List.append_nil]
    refine ⟨_, _, { proc with
        stage := (runCommand host proc.fn proc.argv (outcomeOf host s.remote proc (.done cuts))).next },
      rfl, ⟨rfl, serving.finished, serving.table, serving.loop, serving.alive, serving.channel,
        serving.opened⟩, .inl (talks cuts), ?_⟩
    have waiting := (talks cuts).expected
    rw [pending, pending, if_pos starts, if_neg]
    · exact Nat.one_pos
    · intro again
      dsimp only at again
      rw [again] at waiting
      cases waiting

/-- The frame loop reads a frame that has been sent whole. -/
theorem step_frame {command : UInt8} {pay : Text}
    (sent : s.toServer = (Message.of command channel pay).bytes) (short : pay.length < 65536) :
    step host s .frame = serve host { s with toServer := [] } s.remote
      (.frame (newQuint command pay.length channel) pay) := by
  have read := readFull_append (rfl : pay.length = pay.length) []
  rw [List.append_nil] at read
  rw [step, sent, Message.bytes, Message.of, readQuint_bytes, Option.bind_some]
  dsimp only
  rw [n_newQuint, Nat.mod_eq_of_lt short, read, Option.bind_some]

/-- The BEGIN starts the goroutine, and is replied to. -/
theorem Quiet.frame {session : Session} {args : List Text} (quiet : Quiet session)
    (small : channel < 65536) (short : ([32].intercalate args).length ≤ MAX_MSG_LEN)
    (called : Called host channel args proc) : ∃ next,
      Mux.step host session
          (.frame (newQuint CMD_BEGIN_MUX (beginPayload args).length channel) (beginPayload args)) =
        some next ∧
      Serving session.procs channel next proc (.reply (.starting session.procs.length)
        (replyQuint CMD_BEGIN_MUX channel muxGood) muxGood) := by
  obtain ⟨name, rest, fn, words, found, rfl⟩ := called
  have whole : (beginPayload args).length =
      (newQuint CMD_BEGIN_MUX (beginPayload args).length channel).n := by
    have length : (beginPayload args).length = 4 + ([32].intercalate args).length := by
      rw [beginPayload, List.length_append]
      rfl
    unfold MAX_MSG_LEN at short
    rw [n_newQuint, Nat.mod_eq_of_lt (by omega)]
  refine ⟨{ session with
    procTable := Function.update session.procTable channel (some session.procs.length)
    procs := session.procs ++ [⟨channel, fn, name :: rest, .opened, .start⟩]
    loop := .reply (.starting session.procs.length) (replyQuint CMD_BEGIN_MUX channel muxGood) muxGood
    log := session.log ++ [.frame (newQuint CMD_BEGIN_MUX (beginPayload args).length channel)] },
    ?_, ⟨rfl, quiet.finished, ?_, rfl, quiet.alive, rfl, rfl⟩⟩
  · rw [Mux.step, if_neg (ne_true_of_eq_false quiet.alive), readFrame, if_pos ⟨quiet.loop, whole⟩]
    dsimp only
    rw [command_newQuint, if_pos rfl, beginMux, p_newQuint, Nat.mod_eq_of_lt small]
    dsimp only
    rw [congrFun quiet.table channel]
    dsimp only
    rw [words]
    dsimp only
    rw [found]
    rfl
  · dsimp only
    rw [quiet.table]

theorem step_begins {action : Action} {args : List Text}
    (control : s.client.control = .begins args) (its : s.client.channel = channel)
    (short : ([32].intercalate args).length ≤ MAX_MSG_LEN) (still : Still s)
    (quiet : Quiet s.session) (procs : s.session.procs = done)
    (called : Called host channel args proc)
    (starts : Starts host channel good total s.client.here s.remote proc)
    (cost : total + 16 ≤ bound) (fair : Fair s action) (stepped : step host s action = some t) :
    ∃ less < bound, Phase host channel good done less t := by
  cases action with
  | client os9 =>
    rw [step, Client.next, control] at stepped
    dsimp only at stepped
    rw [if_neg (by omega)] at stepped
    obtain rfl := Option.some.inj stepped
    refine ⟨total + 15, by omega, .begun rfl short ?_ still.arrived still.inFlight quiet procs called
      starts le_rfl⟩
    dsimp only
    rw [still.toServer, its, List.nil_append]
  | arrive count => exact absurd stepped (not_arrive still.inFlight)
  | frame => exact absurd stepped (not_frame still.toServer)
  | loop answer => exact absurd stepped (not_loop quiet.alive quiet.loop)
  | deliver =>
    refine absurd stepped (not_deliver quiet.alive ?_)
    intro id p tag pay sends
    cases quiet.loop.symm.trans sends
  | run id answer => exact absurd stepped quiet.not_run
  | timeout id => exact fair.1.elim

theorem step_begun {action : Action} {args : List Text}
    (control : s.client.control = .quint CMD_BEGIN_MUX) (small : channel < 65536)
    (short : ([32].intercalate args).length ≤ MAX_MSG_LEN)
    (sent : s.toServer = (Message.of CMD_BEGIN_MUX channel (beginPayload args)).bytes)
    (arrived : s.arrived = []) (inFlight : s.inFlight = [])
    (quiet : Quiet s.session) (procs : s.session.procs = done)
    (called : Called host channel args proc)
    (starts : Starts host channel good total s.client.here s.remote proc)
    (cost : total + 15 ≤ bound) (fair : Fair s action) (stepped : step host s action = some t) :
    ∃ less < bound, Phase host channel good done less t := by
  cases action with
  | client os9 => exact absurd stepped (not_client_of_quint control arrived)
  | arrive count => exact absurd stepped (not_arrive inFlight)
  | frame =>
    have length : (beginPayload args).length = 4 + ([32].intercalate args).length := by
      rw [beginPayload, List.length_append]
      rfl
    unfold MAX_MSG_LEN at short
    rw [step_frame sent (by omega)] at stepped
    obtain ⟨session, taken, rfl⟩ := Option.map_eq_some_iff.mp stepped
    obtain ⟨next, begun, serving⟩ := quiet.frame small short called
    cases taken.symm.trans begun
    have pended : pending proc = 1 := if_pos starts.1
    refine ⟨total + 14, by omega, .starting control ⟨rfl, arrived, ?_⟩ (procs ▸ serving)
      (.inr ⟨starts, rfl, rfl⟩) (by omega)⟩
    dsimp only
    rw [inFlight]
    rfl
  | loop answer => exact absurd stepped (not_loop quiet.alive quiet.loop)
  | deliver =>
    refine absurd stepped (not_deliver quiet.alive ?_)
    intro id p tag pay sends
    cases quiet.loop.symm.trans sends
  | run id answer => exact absurd stepped quiet.not_run
  | timeout id => exact fair.1.elim

theorem step_starting {action : Action} (control : s.client.control = .quint CMD_BEGIN_MUX)
    (its : s.client.channel = channel) (small : channel < 65536) (still : Still s)
    (serving : Serving done channel s.session proc
      (.reply (.starting done.length) (replyQuint CMD_BEGIN_MUX channel muxGood) muxGood))
    (waits : Waits host channel good total s.client.here s.remote proc CMD_MID_MUX [])
    (cost : total + 13 + pending proc ≤ bound) (fair : Fair s action)
    (stepped : step host s action = some t) :
    ∃ less < bound, Phase host channel good done less t := by
  cases action with
  | client os9 => exact absurd stepped (not_client_of_quint control still.arrived)
  | arrive count => exact absurd stepped (not_arrive still.inFlight)
  | frame => exact absurd stepped (not_frame still.toServer)
  | loop answer =>
    have succeeds : answer.fails = false := fair.1
    rw [step, succeeds, if_neg Bool.false_ne_true] at stepped
    obtain ⟨session, taken, rfl⟩ := Option.map_eq_some_iff.mp stepped
    rw [Mux.step, if_neg (ne_true_of_eq_false serving.alive), loopStep, serving.loop] at taken
    obtain rfl := Option.some.inj taken
    have writes : written host s.session (.loop .done) =
        some (.of CMD_BEGIN_MUX channel muxGood) := by
      rw [written, serving.loop]
      dsimp only
      rw [if_neg (by decide), replyQuint, command_newQuint, p_newQuint, Nat.mod_eq_of_lt small]
    have way : s.inFlight ++ bytesOf (written host s.session (.loop .done)) =
        (Message.of CMD_BEGIN_MUX channel muxGood).bytes := by
      rw [still.inFlight, writes]
      rfl
    refine ⟨total + 12 + pending proc, by omega, .greeting ⟨by decide, still.toServer, .inl ⟨control, ?_⟩⟩
      ⟨serving.procs, serving.finished, serving.table, rfl, serving.alive, serving.channel,
        serving.opened⟩ waits ?_⟩
    · dsimp only
      rw [still.arrived, List.nil_append, way, its]
    · have left : wayLeft { s with
          session := { s.session with
            loop := .ready
            log := s.session.log ++ [.reply (.starting done.length)
              (replyQuint CMD_BEGIN_MUX channel muxGood) muxGood] }
          inFlight := s.inFlight ++ bytesOf (written host s.session (.loop .done)) } = 7 := by
        rw [wayLeft]
        dsimp only
        rw [control, way]
        rfl
      rw [left]
      omega
  | deliver =>
    refine absurd stepped (not_deliver serving.alive ?_)
    intro id p tag pay sends
    cases serving.loop.symm.trans sends
  | run id answer =>
    obtain ⟨session, remote, proc', rfl, serving', waits', less⟩ := waits.run serving fair stepped
    exact ⟨total + 13 + pending proc', by omega,
      .starting control ⟨still.toServer, still.arrived, still.inFlight⟩ serving' waits' le_rfl⟩
  | timeout id => exact fair.1.elim

theorem step_greeting {action : Action} (way : OnItsWay s CMD_BEGIN_MUX muxGood)
    (its : s.client.channel = channel) (small : channel < 65536)
    (serving : Serving done channel s.session proc .ready)
    (waits : Waits host channel good total s.client.here s.remote proc CMD_MID_MUX [])
    (cost : total + 5 + pending proc + wayLeft s ≤ bound) (fair : Fair s action)
    (stepped : step host s action = some t) :
    ∃ less < bound, Phase host channel good done less t := by
  cases action with
  | client os9 =>
    obtain ⟨-, timely, fits, -⟩ := fair
    rcases way.client (its ▸ small) timely fits stepped with
      ⟨way', less, -, here, session, remote⟩ | ⟨result, -, -, -, inFlight, acts, rfl⟩
    · refine ⟨total + 5 + pending proc + wayLeft t, by omega, .greeting way' (session ▸ serving) ?_
        le_rfl⟩
      rw [here, remote]
      exact waits
    · rw [act, if_neg (by decide), if_neg (by decide), Option.some_inj] at acts
      subst acts
      refine ⟨total + 4 + pending proc, by omega, .asking rfl ?_ (by decide) rfl inFlight serving
        waits le_rfl⟩
      rw [its]
      rfl
  | arrive count =>
    obtain ⟨way', less, client, session, remote⟩ := way.arrive stepped
    refine ⟨total + 5 + pending proc + wayLeft t, by omega, .greeting way' (session ▸ serving) ?_
      le_rfl⟩
    rw [client, remote]
    exact waits
  | frame => exact absurd stepped (not_frame way.nothing)
  | loop answer => exact absurd stepped (not_loop serving.alive serving.loop)
  | deliver =>
    refine absurd stepped (not_deliver serving.alive ?_)
    intro id p tag pay sends
    cases serving.loop.symm.trans sends
  | run id answer =>
    obtain ⟨session, remote, proc', rfl, serving', waits', less⟩ := waits.run serving fair stepped
    refine ⟨total + 5 + pending proc' + wayLeft s, by omega,
      .greeting ⟨way.said, way.nothing, way.coming⟩ serving' waits' le_rfl⟩
  | timeout id => exact fair.1.elim

theorem Waits.command {tag : UInt8} {pay : Text} {here : Local} {remote : Text → Text}
    (waits : Waits host channel good total here remote proc tag pay) :
    tag = CMD_MID_MUX ∨ tag = CMD_END_MUX := by
  rcases waits with talk | ⟨-, same, -⟩
  · exact talk.command
  · exact .inl same

theorem step_asking {action : Action} {tag : UInt8} {pay : Text}
    (control : s.client.control = .quint tag) (small : channel < 65536)
    (sent : s.toServer = (Message.of tag channel pay).bytes) (short : pay.length < 65536)
    (arrived : s.arrived = []) (inFlight : s.inFlight = [])
    (serving : Serving done channel s.session proc .ready)
    (waits : Waits host channel good total s.client.here s.remote proc tag pay)
    (cost : total + 4 + pending proc ≤ bound) (fair : Fair s action)
    (stepped : step host s action = some t) :
    ∃ less < bound, Phase host channel good done less t := by
  cases action with
  | client os9 => exact absurd stepped (not_client_of_quint control arrived)
  | arrive count => exact absurd stepped (not_arrive inFlight)
  | frame =>
    rw [step_frame sent short] at stepped
    obtain ⟨session, taken, rfl⟩ := Option.map_eq_some_iff.mp stepped
    have whole : pay.length = (newQuint tag pay.length channel).n := by
      rw [n_newQuint, Nat.mod_eq_of_lt short]
    have its : (newQuint tag pay.length channel).p = channel := by
      rw [p_newQuint, Nat.mod_eq_of_lt small]
    obtain ⟨next, read, handing⟩ := serving.frame host whole its waits.command
    cases taken.symm.trans read
    refine ⟨total + 3 + pending proc, by omega, .handing control ⟨rfl, arrived, ?_⟩ handing waits
      le_rfl⟩
    dsimp only
    rw [inFlight]
    rfl
  | loop answer => exact absurd stepped (not_loop serving.alive serving.loop)
  | deliver =>
    refine absurd stepped (not_deliver serving.alive ?_)
    intro id p tag pay sends
    cases serving.loop.symm.trans sends
  | run id answer =>
    obtain ⟨session, remote, proc', rfl, serving', waits', less⟩ := waits.run serving fair stepped
    exact ⟨total + 4 + pending proc', by omega,
      .asking control sent short arrived inFlight serving' waits' le_rfl⟩
  | timeout id => exact fair.1.elim

/-- The goroutine takes the request it has waited for. -/
theorem handed {tag : UInt8} {pay : Text} (control : s.client.control = .quint tag) (still : Still s)
    (serving : Serving done channel s.session proc (.send done.length channel tag pay))
    (talk : Talk host channel good total s.client.here s.remote proc.stage tag pay)
    (cost : total + 3 ≤ bound) (stepped : step host s .deliver = some t) :
    ∃ less < bound, Phase host channel good done less t := by
  obtain ⟨session, taken, rfl⟩ := Option.map_eq_some_iff.mp stepped
  have silent : s.inFlight ++ bytesOf (written host s.session .deliver) = [] := by
    rw [still.inFlight]
    rfl
  have waiting := talk.expected
  have going : ∀ {stage : Stage}, tag = CMD_MID_MUX → proc.stage.accept host pay = .ok stage →
      Serving done channel session { proc with stage } .ready := by
    rintro stage rfl accepts
    have delivered := serving.deliver_eq waiting accepts
    cases taken.symm.trans delivered
    exact ⟨rfl, serving.finished, serving.table, rfl, serving.alive, serving.channel, serving.opened⟩
  obtain ⟨stage, at_stage⟩ : ∃ stage, proc.stage = stage := ⟨_, rfl⟩
  rw [at_stage] at talk
  cases talk with
  | @last _ _ _ verdict ends said cost' =>
    have expects : proc.stage.expected = some CMD_END_MUX := by
      rw [at_stage]
      rfl
    have accepts : proc.stage.accept host [] = .ok (.exitEnded verdict) := by
      rw [at_stage]
      rfl
    have delivered := serving.deliver_eq expects accepts
    cases taken.symm.trans delivered
    refine ⟨verdict.length + 11, by omega,
      .ending control ⟨still.toServer, still.arrived, silent⟩
        ⟨⟨_, rfl, serving.channel, rfl, ?_⟩, serving.finished, serving.alive,
          .inl ⟨rfl, serving.table⟩⟩ said ends ?_⟩
    · dsimp only
      rw [serving.opened]
      exact InPacket.noConfusion
    · exact Nat.le_refl _
  | round expects accepts puts does onward cost' =>
    exact ⟨_, by omega, .working control ⟨still.toServer, still.arrived, silent⟩
      (going rfl (at_stage ▸ accepts)) puts does onward le_rfl⟩
  | stores expects accepts does onward cost' =>
    exact ⟨_, by omega, .storing control ⟨still.toServer, still.arrived, silent⟩
      (going rfl (at_stage ▸ accepts)) rfl does onward le_rfl⟩

theorem step_handing {action : Action} {tag : UInt8} {pay : Text}
    (control : s.client.control = .quint tag) (still : Still s)
    (serving : Serving done channel s.session proc (.send done.length channel tag pay))
    (waits : Waits host channel good total s.client.here s.remote proc tag pay)
    (cost : total + 3 + pending proc ≤ bound) (fair : Fair s action)
    (stepped : step host s action = some t) :
    ∃ less < bound, Phase host channel good done less t := by
  cases action with
  | client os9 => exact absurd stepped (not_client_of_quint control still.arrived)
  | arrive count => exact absurd stepped (not_arrive still.inFlight)
  | frame => exact absurd stepped (not_frame still.toServer)
  | loop answer => exact absurd stepped serving.not_loop_of_send
  | deliver =>
    rcases waits with talk | ⟨⟨starts, -⟩, -⟩
    · exact handed control still serving talk (by omega) stepped
    · obtain ⟨session, taken, -⟩ := Option.map_eq_some_iff.mp stepped
      rw [serving.deliver_eq_none (by rw [starts]; rfl)] at taken
      cases taken
  | run id answer =>
    obtain ⟨session, remote, proc', rfl, serving', waits', less⟩ := waits.run serving fair stepped
    exact ⟨total + 3 + pending proc', by omega,
      .handing control ⟨still.toServer, still.arrived, still.inFlight⟩ serving' waits' le_rfl⟩
  | timeout id => exact fair.1.elim

theorem done_of_not_fails {answer : Answer} (succeeds : answer.fails = false) :
    ∃ cuts, answer = .done cuts := by
  cases answer with
  | done cuts => exact ⟨cuts, rfl⟩
  | failed err => cases succeeds
  | stops cuts count err => cases succeeds

/-- A goroutine past its start finds nothing more in a file. -/
theorem outcomeOf_of_ne_start {cuts : List Nat} (started : proc.stage ≠ .start) :
    outcomeOf host s.remote proc (.done cuts) = .done := by
  have nothing : fileReads host s.remote proc cuts = none := by
    unfold fileReads
    split
    · rename_i starts _ _
      exact absurd starts started
    · rename_i starts _ _
      exact absurd starts started
    · rfl
  rw [outcomeOf, nothing]

theorem step_storing {action : Action} {src dest data pay' : Text} {here' : Local} {tag' : UInt8}
    (control : s.client.control = .quint CMD_MID_MUX) (still : Still s)
    (serving : Serving done channel s.session proc .ready)
    (takes : proc.stage = .take src dest data)
    (does : Does channel s.client.here (ascii "6") here' tag' pay')
    (onward : Talk host channel good left here'
      (Function.update s.remote (longName host dest) (s.remote (longName host dest) ++ data))
      (.packet src dest) tag' pay')
    (cost : left + 20 ≤ bound) (fair : Fair s action) (stepped : step host s action = some t) :
    ∃ less < bound, Phase host channel good done less t := by
  cases action with
  | client os9 => exact absurd stepped (not_client_of_quint control still.arrived)
  | arrive count => exact absurd stepped (not_arrive still.inFlight)
  | frame => exact absurd stepped (not_frame still.toServer)
  | loop answer => exact absurd stepped (not_loop serving.alive serving.loop)
  | deliver =>
    refine absurd stepped (not_deliver serving.alive ?_)
    intro id p tag pay sends
    cases serving.loop.symm.trans sends
  | run id answer =>
    obtain ⟨rfl, session, taken, rfl⟩ := run_cases serving.alive serving.procs serving.finished stepped
    obtain ⟨cuts, rfl⟩ := done_of_not_fails (fair.1 : answer.fails = false)
    have found : s.session.procs[done.length]? = some proc := by
      rw [serving.procs, getElem?_last]
    have started : proc.stage ≠ .start := by
      rw [takes]
      exact Stage.noConfusion
    rw [outcomeOf_of_ne_start started] at taken ⊢
    rw [runStep_of_take serving.procs takes rfl, Option.some_inj] at taken
    have silent : s.inFlight ++ bytesOf (written host s.session (.run done.length .done)) = [] := by
      rw [still.inFlight, written, found, Option.bind_some, takes]
      rfl
    have remote : rewrites host s.remote proc (.done cuts) =
        Function.update s.remote (longName host dest) (s.remote (longName host dest) ++ data) := by
      rw [rewrites, takes]
    subst taken
    refine ⟨left + 15, by omega, .working control ⟨still.toServer, still.arrived, silent⟩
      ⟨rfl, serving.finished, serving.table, serving.loop, serving.alive, serving.channel,
        serving.opened⟩ rfl does ?_ le_rfl⟩
    dsimp only
    rw [remote]
    exact onward
  | timeout id => exact fair.1.elim

theorem step_working {action : Action} {message pay' : Text} {next : Stage} {here' : Local}
    {tag' : UInt8} (its : s.client.channel = channel)
    (control : s.client.control = .quint CMD_MID_MUX) (still : Still s)
    (serving : Serving done channel s.session proc .ready)
    (puts : proc.stage.puts host = some (CMD_MID_MUX, message, next))
    (does : Does channel s.client.here message here' tag' pay')
    (onward : Talk host channel good left here' s.remote next tag' pay')
    (cost : left + message.length + 14 ≤ bound) (fair : Fair s action)
    (stepped : step host s action = some t) :
    ∃ less < bound, Phase host channel good done less t := by
  cases action with
  | client os9 => exact absurd stepped (not_client_of_quint control still.arrived)
  | arrive count => exact absurd stepped (not_arrive still.inFlight)
  | frame => exact absurd stepped (not_frame still.toServer)
  | loop answer => exact absurd stepped (not_loop serving.alive serving.loop)
  | deliver =>
    refine absurd stepped (not_deliver serving.alive ?_)
    intro id p tag pay sends
    cases serving.loop.symm.trans sends
  | run id answer =>
    obtain ⟨rfl, session, taken, rfl⟩ := run_cases serving.alive serving.procs serving.finished stepped
    obtain ⟨cuts, rfl⟩ := done_of_not_fails (fair.1 : answer.fails = false)
    have found : s.session.procs[done.length]? = some proc := by
      rw [serving.procs, getElem?_last]
    have started : proc.stage ≠ .start := by
      intro starts
      rw [starts] at puts
      cases puts
    have remote : rewrites host s.remote proc (.done cuts) = s.remote := by
      unfold rewrites
      dsimp only
      split
      · rename_i starts _ _
        exact absurd starts started
      · rename_i takes
        rw [takes] at puts
        cases puts
      · rfl
    rw [outcomeOf_of_ne_start started] at taken ⊢
    rw [runStep_of_puts serving.procs puts rfl, Option.some_inj] at taken
    have way : s.inFlight ++ bytesOf (written host s.session (.run done.length .done)) =
        (Message.of CMD_MID_MUX channel message).bytes := by
      rw [still.inFlight, written, found, Option.bind_some, puts, Option.bind_some, ← serving.channel]
      rfl
    rw [remote, way]
    subst taken
    refine ⟨left + message.length + 11, by omega, .telling ⟨does.said, still.toServer, .inl ⟨control, ?_⟩⟩
      ⟨rfl, serving.finished, serving.table, serving.loop, serving.alive, serving.channel,
        serving.opened⟩ does onward ?_⟩
    · dsimp only
      rw [still.arrived, its, List.nil_append]
    · rw [wayLeft]
      dsimp only
      rw [control, Message.bytes, List.length_append, Quint.length_bytes]
      exact (by omega : left + 5 + (5 + message.length + 1) ≤ left + message.length + 11)
  | timeout id => exact fair.1.elim

theorem step_telling {action : Action} {message pay' : Text} {here' : Local} {tag' : UInt8}
    (way : OnItsWay s CMD_MID_MUX message) (its : s.client.channel = channel)
    (small : channel < 65536) (serving : Serving done channel s.session proc .ready)
    (does : Does channel s.client.here message here' tag' pay')
    (onward : Talk host channel good left here' s.remote proc.stage tag' pay')
    (cost : left + 5 + wayLeft s ≤ bound) (fair : Fair s action)
    (stepped : step host s action = some t) :
    ∃ less < bound, Phase host channel good done less t := by
  cases action with
  | client os9 =>
    obtain ⟨errors, timely, fits, writes⟩ := fair
    rcases way.client (its ▸ small) timely fits stepped with
      ⟨way', less, -, here, session, remote⟩ |
      ⟨result, control, room, arrived, inFlight, acts, rfl⟩
    · refine ⟨left + 5 + wayLeft t, by omega, .telling way' (session ▸ serving) (here ▸ does) ?_
        le_rfl⟩
      rw [remote]
      exact onward
    · have count := @n_of_room CMD_MID_MUX message s.client.channel room
      rw [NoErrors, control] at errors
      rw [WritesRight, control] at writes
      dsimp only at errors writes
      rw [count] at errors
      rw [count, arrived, List.take_length] at writes
      rw [act, if_neg (by decide), if_pos rfl, its] at acts
      rw [its] at count writes
      obtain rfl := does.does _ os9 result count errors writes acts
      have waiting : proc.stage ≠ .start := by
        intro starts
        have expects := onward.expected
        rw [starts] at expects
        cases expects
      have none : pending proc = 0 := if_neg waiting
      exact ⟨left + 4 + pending proc, by omega, .asking rfl rfl does.short rfl inFlight serving
        (.inl onward) le_rfl⟩
  | arrive count =>
    obtain ⟨way', less, client, session, remote⟩ := way.arrive stepped
    refine ⟨left + 5 + wayLeft t, by omega, .telling way' (session ▸ serving) (client ▸ does) ?_
      le_rfl⟩
    rw [remote]
    exact onward
  | frame => exact absurd stepped (not_frame way.nothing)
  | loop answer => exact absurd stepped (not_loop serving.alive serving.loop)
  | deliver =>
    refine absurd stepped (not_deliver serving.alive ?_)
    intro id p tag pay sends
    cases serving.loop.symm.trans sends
  | run id answer =>
    refine absurd stepped (serving.not_run ?_)
    rw [onward.expected]
    exact Option.some_ne_none tag'
  | timeout id => exact fair.1.elim

/-! ### The end -/

theorem Closing.not_deliver {stage : Stage} (closes : Closing done channel s.session stage) :
    step host s .deliver ≠ some t := by
  refine RCommand.not_deliver closes.alive ?_
  intro id p tag pay sends
  rcases closes.loop with ⟨loop, -⟩ | ⟨loop, -⟩ <;> cases loop.symm.trans sends

/-- The entry of the map is deleted. -/
theorem Closing.loop_step {stage : Stage} {answer : Answer}
    (closes : Closing done channel s.session stage)
    (stepped : step host s (.loop answer) = some t) : ∃ session,
      t = { s with session } ∧ Closing done channel session stage ∧
        closing session < closing s.session ∧ session.log = s.session.log := by
  rcases closes.loop with ⟨loop, table⟩ | ⟨loop, -⟩
  · obtain ⟨proc, procs, its, at_stage, packet⟩ := closes.procs
    obtain ⟨session, taken, rfl⟩ := Option.map_eq_some_iff.mp stepped
    rw [Mux.step, if_neg (ne_true_of_eq_false closes.alive), loopStep, loop] at taken
    dsimp only at taken
    rw [procs, getElem?_last, Option.map_some, if_neg packet, Option.some_inj, set_last] at taken
    have silent : ∀ outcome, bytesOf (written host s.session (.loop outcome)) = [] := by
      intro outcome
      rw [written, loop]
      rfl
    rw [silent, List.append_nil]
    subst taken
    refine ⟨_, rfl, ⟨⟨_, rfl, its, at_stage, InPacket.noConfusion⟩, closes.finished, closes.alive,
      .inr ⟨rfl, ?_⟩⟩, ?_, rfl⟩
    · dsimp only
      rw [table, Function.update_idem]
      exact Function.update_eq_self_iff.mpr rfl
    · have before : closing s.session = 1 := by
        rw [closing, loop]
        rfl
      rw [before]
      exact Nat.one_pos
  · exact absurd stepped (not_loop closes.alive loop)

theorem step_ending {action : Action} {verdict : Text}
    (control : s.client.control = .quint CMD_END_MUX) (its : s.client.channel = channel)
    (still : Still s) (closes : Closing done channel s.session (.exitEnded verdict))
    (said : verdict ≠ []) (ends : good s.client.here.files s.remote verdict)
    (cost : verdict.length + 10 + closing s.session ≤ bound) (fair : Fair s action)
    (stepped : step host s action = some t) :
    ∃ less < bound, Phase host channel good done less t := by
  cases action with
  | client os9 => exact absurd stepped (not_client_of_quint control still.arrived)
  | arrive count => exact absurd stepped (not_arrive still.inFlight)
  | frame => exact absurd stepped (not_frame still.toServer)
  | loop answer =>
    obtain ⟨session, rfl, closes', less, -⟩ := closes.loop_step stepped
    exact ⟨verdict.length + 10 + closing session, by omega,
      .ending control ⟨still.toServer, still.arrived, still.inFlight⟩ closes' said ends le_rfl⟩
  | deliver => exact absurd stepped closes.not_deliver
  | run id answer =>
    obtain ⟨proc, procs, channels, at_stage, packet⟩ := closes.procs
    obtain ⟨rfl, session, taken, rfl⟩ := run_cases closes.alive procs closes.finished stepped
    obtain ⟨cuts, rfl⟩ := done_of_not_fails (fair.1 : answer.fails = false)
    have puts : proc.stage.puts host = some (CMD_END_MUX, verdict, .finished) := by
      rw [at_stage]
      rfl
    have found : s.session.procs[done.length]? = some proc := by
      rw [procs, getElem?_last]
    have started : proc.stage ≠ .start := by
      rw [at_stage]
      exact Stage.noConfusion
    have remote : rewrites host s.remote proc (.done cuts) = s.remote := by
      rw [rewrites, at_stage]
    rw [outcomeOf_of_ne_start started] at taken ⊢
    rw [runStep_of_puts procs puts rfl, Option.some_inj] at taken
    have way : s.inFlight ++ bytesOf (written host s.session (.run done.length .done)) =
        (Message.of CMD_END_MUX channel verdict).bytes := by
      rw [still.inFlight, written, found, Option.bind_some, puts, Option.bind_some, ← channels]
      rfl
    rw [remote, way]
    subst taken
    refine ⟨verdict.length + 7 + closing s.session, by omega,
      .judging ⟨said, still.toServer, .inl ⟨control, ?_⟩⟩
        ⟨⟨_, rfl, channels, rfl, packet⟩, closes.finished, closes.alive, closes.loop⟩ ?_ ends ?_⟩
    · dsimp only
      rw [still.arrived, its, List.nil_append]
    · dsimp only
      rw [channels]
      exact List.mem_append_right _ List.mem_cons_self
    · rw [wayLeft, closing, closing]
      dsimp only
      rw [control, Message.bytes, List.length_append, Quint.length_bytes]
      exact (by omega : 5 + verdict.length + 1 + 1 + (if s.session.loop = .ready then 0 else 1) ≤
        verdict.length + 7 + if s.session.loop = .ready then 0 else 1)
  | timeout id => exact fair.1.elim

/-- The verdict is shown, and the command exits. -/
theorem onEnd_eq {verdict : Text} {here : Local} (room : Room CMD_END_MUX verdict) : ∃ stdErr,
    onEnd verdict here = (.exited (if verdict.head? = some 43 then 0 else 255),
      { here with stdErr }, []) := by
  rw [onEnd]
  split
  · exact ⟨_, rfl⟩
  · rename_i last
    have fits := (room.2 rfl).resolve_right last
    rw [if_neg (by omega)]
    exact ⟨_, rfl⟩

theorem step_judging {action : Action} {verdict : Text} (way : OnItsWay s CMD_END_MUX verdict)
    (its : s.client.channel = channel) (small : channel < 65536)
    (closes : Closing done channel s.session .finished)
    (logged : .reply (.proc done.length) (replyQuint CMD_END_MUX channel verdict) verdict ∈
      s.session.log)
    (ends : good s.client.here.files s.remote verdict)
    (cost : wayLeft s + 1 + closing s.session ≤ bound) (fair : Fair s action)
    (stepped : step host s action = some t) :
    ∃ less < bound, Phase host channel good done less t := by
  cases action with
  | client os9 =>
    obtain ⟨-, timely, fits, -⟩ := fair
    rcases way.client (its ▸ small) timely fits stepped with
      ⟨way', less, -, here, session, remote⟩ | ⟨result, -, room, -, inFlight, acts, rfl⟩
    · refine ⟨wayLeft t + 1 + closing t.session, by rw [session]; omega,
        .judging way' (session ▸ closes) (session ▸ logged) ?_ le_rfl⟩
      rw [here, remote]
      exact ends
    · obtain ⟨stdErr, exits⟩ := @onEnd_eq verdict s.client.here room
      rw [act, if_pos rfl, exits, Option.some_inj] at acts
      subst acts
      exact ⟨closing s.session, by omega,
        .ended rfl ⟨rfl, rfl, inFlight⟩ closes logged ends le_rfl⟩
  | arrive count =>
    obtain ⟨way', less, client, session, remote⟩ := way.arrive stepped
    refine ⟨wayLeft t + 1 + closing t.session, by rw [session]; omega,
      .judging way' (session ▸ closes) (session ▸ logged) ?_ le_rfl⟩
    rw [client, remote]
    exact ends
  | frame => exact absurd stepped (not_frame way.nothing)
  | loop answer =>
    obtain ⟨session, rfl, closes', less, same⟩ := closes.loop_step stepped
    exact ⟨wayLeft s + 1 + closing session, by omega,
      .judging ⟨way.said, way.nothing, way.coming⟩ closes' (same ▸ logged) ends le_rfl⟩
  | deliver => exact absurd stepped closes.not_deliver
  | run id answer => exact absurd stepped closes.not_run
  | timeout id => exact fair.1.elim

theorem step_ended {action : Action} {verdict : Text}
    (control : s.client.control = .exited (if verdict.head? = some 43 then 0 else 255))
    (still : Still s) (closes : Closing done channel s.session .finished)
    (logged : .reply (.proc done.length) (replyQuint CMD_END_MUX channel verdict) verdict ∈
      s.session.log)
    (ends : good s.client.here.files s.remote verdict)
    (cost : closing s.session ≤ bound) (fair : Fair s action)
    (stepped : step host s action = some t) :
    ∃ less < bound, Phase host channel good done less t := by
  cases action with
  | client os9 =>
    rw [step, Client.next, control] at stepped
    cases stepped
  | arrive count => exact absurd stepped (not_arrive still.inFlight)
  | frame => exact absurd stepped (not_frame still.toServer)
  | loop answer =>
    obtain ⟨session, rfl, closes', less, same⟩ := closes.loop_step stepped
    exact ⟨closing session, by omega,
      .ended control ⟨still.toServer, still.arrived, still.inFlight⟩ closes' (same ▸ logged) ends
        le_rfl⟩
  | deliver => exact absurd stepped closes.not_deliver
  | run id answer => exact absurd stepped closes.not_run
  | timeout id => exact fair.1.elim

/-- Every step of a fair run leads from phase to phase, with less left to do. -/
theorem Phase.step {action : Action} (phase : Phase host channel good done bound s)
    (its : s.client.channel = channel) (small : channel < 65536) (fair : Fair s action)
    (stepped : RCommand.step host s action = some t) :
    ∃ less < bound, Phase host channel good done less t := by
  cases phase with
  | begins control short still quiet procs called starts cost =>
    exact step_begins control its short still quiet procs called starts cost fair stepped
  | begun control short sent arrived inFlight quiet procs called starts cost =>
    exact step_begun control small short sent arrived inFlight quiet procs called starts cost fair
      stepped
  | starting control still serving waits cost =>
    exact step_starting control its small still serving waits cost fair stepped
  | greeting way serving waits cost =>
    exact step_greeting way its small serving waits cost fair stepped
  | asking control sent short arrived inFlight serving waits cost =>
    exact step_asking control small sent short arrived inFlight serving waits cost fair stepped
  | handing control still serving waits cost =>
    exact step_handing control still serving waits cost fair stepped
  | storing control still serving takes does onward cost =>
    exact step_storing control still serving takes does onward cost fair stepped
  | working control still serving puts does onward cost =>
    exact step_working its control still serving puts does onward cost fair stepped
  | telling way serving does onward cost =>
    exact step_telling way its small serving does onward cost fair stepped
  | ending control still closes said ends cost =>
    exact step_ending control its still closes said ends cost fair stepped
  | judging way closes logged ends cost =>
    exact step_judging way its small closes logged ends cost fair stepped
  | ended control still closes logged ends cost =>
    exact step_ended control still closes logged ends cost fair stepped

/-! ### What a phase says -/

theorem Phase.inStep (phase : Phase host channel good done bound s)
    (its : s.client.channel = channel) : InStep s := by
  have quiet : ∀ {cmd : UInt8}, s.client.control = .quint cmd → Still s → InStep s := by
    intro cmd control still
    refine .inr ⟨still.toServer, ?_⟩
    rw [control, still.arrived, still.inFlight]
    exact .inl rfl
  have coming : ∀ {cmd : UInt8} {message : Text}, OnItsWay s cmd message → InStep s := by
    intro cmd message way
    refine .inr ⟨way.nothing, ?_⟩
    rcases way.coming with ⟨control, whole⟩ | ⟨control, whole, -⟩
    · rw [control]
      exact .inr ⟨message, way.said, whole⟩
    · rw [control, whole]
  cases phase with
  | begins control short still =>
    refine .inr ⟨still.toServer, ?_⟩
    rw [control, still.arrived, still.inFlight]
    rfl
  | begun control short sent arrived inFlight =>
    exact .inl ⟨_, _, control, its.symm ▸ sent, by rw [arrived, inFlight, List.append_nil]⟩
  | starting control still => exact quiet control still
  | greeting way => exact coming way
  | asking control sent short arrived inFlight =>
    exact .inl ⟨_, _, control, its.symm ▸ sent, by rw [arrived, inFlight, List.append_nil]⟩
  | handing control still => exact quiet control still
  | storing control still => exact quiet control still
  | working control still => exact quiet control still
  | telling way => exact coming way
  | ending control still => exact quiet control still
  | judging way => exact coming way
  | ended control still =>
    refine .inr ⟨still.toServer, ?_⟩
    rw [control, still.arrived, still.inFlight]
    rfl

/-- Neither side has broken down. -/
theorem Phase.alive (phase : Phase host channel good done bound s) :
    s.client.control ≠ .spilled ∧ s.client.control ≠ .fatal ∧ s.session.crashed = false := by
  have waiting : ∀ {control : Control}, s.client.control = control → control ≠ .spilled →
      control ≠ .fatal → s.session.crashed = false →
        s.client.control ≠ .spilled ∧ s.client.control ≠ .fatal ∧ s.session.crashed = false := by
    rintro control rfl spilled fatal alive
    exact ⟨spilled, fatal, alive⟩
  have coming : ∀ {cmd : UInt8} {message : Text}, OnItsWay s cmd message →
      s.session.crashed = false →
        s.client.control ≠ .spilled ∧ s.client.control ≠ .fatal ∧ s.session.crashed = false := by
    intro cmd message way alive
    rcases way.coming with ⟨control, -⟩ | ⟨control, -⟩
    · exact waiting control (by simp) (by simp) alive
    · exact waiting control (by simp) (by simp) alive
  cases phase with
  | begins control _ _ quiet => exact waiting control (by simp) (by simp) quiet.alive
  | begun control _ _ _ _ quiet => exact waiting control (by simp) (by simp) quiet.alive
  | starting control _ serving => exact waiting control (by simp) (by simp) serving.alive
  | greeting way serving => exact coming way serving.alive
  | asking control _ _ _ _ serving => exact waiting control (by simp) (by simp) serving.alive
  | handing control _ serving => exact waiting control (by simp) (by simp) serving.alive
  | storing control _ serving => exact waiting control (by simp) (by simp) serving.alive
  | working control _ serving => exact waiting control (by simp) (by simp) serving.alive
  | telling way serving => exact coming way serving.alive
  | ending control _ closes => exact waiting control (by simp) (by simp) closes.alive
  | judging way closes => exact coming way closes.alive
  | ended control _ closes => exact waiting control (by simp) (by simp) closes.alive

/-- When the command has exited, its status is that of the verdict, and what was to hold does. -/
theorem Phase.exited {status : UInt8} (phase : Phase host channel good done bound s)
    (exits : s.client.control = .exited status) : ∃ verdict,
      .reply (.proc done.length) (replyQuint CMD_END_MUX channel verdict) verdict ∈
        s.session.log ∧
      status = (if verdict.head? = some 43 then 0 else 255) ∧
      good s.client.here.files s.remote verdict ∧
      (∃ proc, s.session.procs = done ++ [proc] ∧ proc.stage = .finished) ∧
      (s.session.loop = .ready → Quiet s.session) := by
  have apart : ∀ {control : Control}, s.client.control = control →
      (∀ status, control ≠ .exited status) → False := by
    rintro control rfl other
    exact other status exits
  have coming : ∀ {cmd : UInt8} {message : Text}, OnItsWay s cmd message → False := by
    intro cmd message way
    rcases way.coming with ⟨control, -⟩ | ⟨control, -⟩
    · exact apart control (by simp)
    · exact apart control (by simp)
  cases phase with
  | begins control => exact (apart control (by simp)).elim
  | begun control => exact (apart control (by simp)).elim
  | starting control => exact (apart control (by simp)).elim
  | greeting way => exact (coming way).elim
  | asking control => exact (apart control (by simp)).elim
  | handing control => exact (apart control (by simp)).elim
  | storing control => exact (apart control (by simp)).elim
  | working control => exact (apart control (by simp)).elim
  | telling way => exact (coming way).elim
  | ending control => exact (apart control (by simp)).elim
  | judging way => exact (coming way).elim
  | @ended _ _ verdict control still closes logged ends cost =>
    obtain ⟨proc, procs, -, finished, -⟩ := closes.procs
    refine ⟨verdict, logged, ?_, ends, ⟨proc, procs, finished⟩, fun ready => ?_⟩
    · exact (Control.exited.inj (control.symm.trans exits)).symm
    · have table : s.session.procTable = fun _ => none := by
        rcases closes.loop with ⟨loop, -⟩ | ⟨-, table⟩
        · cases ready.symm.trans loop
        · exact table
      refine ⟨table, ready, closes.alive, ?_⟩
      rw [procs]
      refine List.forall_mem_append.mpr ⟨closes.finished, ?_⟩
      exact List.forall_mem_singleton.mpr finished

/-! ### It goes on -/

/-- The command has exited, and the frame loop is ready for another. -/
def Over (s : State) : Prop := (∃ status, s.client.control = .exited status) ∧ s.session.loop = .ready

/-- A step of somebody who has no reason to wait. -/
def Willing : Action → Prop
  | .client os9 => os9 = .done
  | .loop answer => answer.fails = false
  | .run _ answer => answer.fails = false
  | .timeout _ => False
  | _ => True

theorem run_last {cuts : List Nat} {session : Session} (alive : s.session.crashed = false)
    (procs : s.session.procs = done ++ [proc])
    (runs : runStep host s.session done.length (outcomeOf host s.remote proc (.done cuts)) =
      some session) : ∃ t, step host s (.run done.length (.done cuts)) = some t := by
  rw [step, procs, getElem?_last, Option.bind_some, serve, Mux.step,
    if_neg (ne_true_of_eq_false alive), runs]
  exact ⟨_, rfl⟩

theorem OnItsWay.willing {cmd : UInt8} {payload : Text} (way : OnItsWay s cmd payload)
    (small : s.client.channel < 65536)
    (can : Room cmd payload → ∃ result, act s.client.channel cmd
      (newQuint cmd payload.length s.client.channel) payload .done s.client.here = some result) :
    ∃ action t, Willing action ∧ step host s action = some t := by
  rcases way.progress host small can with ⟨count, t, stepped⟩ | ⟨t, stepped⟩
  · exact ⟨.arrive count, t, trivial, stepped⟩
  · exact ⟨.client .done, t, rfl, stepped⟩

/-- Until the transfer is over, somebody can go on. -/
theorem Phase.progress (phase : Phase host channel good done bound s)
    (its : s.client.channel = channel) (small : channel < 65536) :
    Over s ∨ ∃ action t, Willing action ∧ RCommand.step host s action = some t := by
  have runs : ∀ {proc : Proc} {session : Session}, s.session.crashed = false →
      s.session.procs = done ++ [proc] →
      runStep host s.session done.length (outcomeOf host s.remote proc (.done [])) = some session →
        ∃ action t, Willing action ∧ RCommand.step host s action = some t := by
    intro proc session alive procs runs
    obtain ⟨t, stepped⟩ := run_last alive procs runs
    exact ⟨.run done.length (.done []), t, rfl, stepped⟩
  have started : ∀ {proc : Proc} {session : Session}, proc.stage ≠ .start →
      runStep host s.session done.length .done = some session →
      runStep host s.session done.length (outcomeOf host s.remote proc (.done [])) =
        some session := by
    intro proc session started taken
    rw [outcomeOf_of_ne_start started]
    exact taken
  cases phase with
  | begins control short still quiet procs called starts cost =>
    refine .inr ⟨.client .done, ?_⟩
    rw [RCommand.step, Client.next, control]
    dsimp only
    rw [if_neg (by omega)]
    exact ⟨_, rfl, rfl⟩
  | begun control short sent arrived inFlight quiet procs called starts cost =>
    have length : ∀ args, (beginPayload args).length = 4 + ([32].intercalate args).length := by
      intro args
      rw [beginPayload, List.length_append]
      rfl
    obtain ⟨next, begun, -⟩ := quiet.frame small short called
    refine .inr ⟨.frame, ?_⟩
    unfold MAX_MSG_LEN at short
    rw [step_frame sent (by rw [length]; omega), serve, begun]
    exact ⟨_, trivial, rfl⟩
  | starting control still serving waits cost =>
    refine .inr ⟨.loop (.done []), ?_⟩
    rw [RCommand.step, serve, Mux.step, if_neg (ne_true_of_eq_false serving.alive), loopStep,
      serving.loop]
    exact ⟨_, rfl, rfl⟩
  | greeting way serving waits cost =>
    exact .inr (way.willing (its ▸ small) fun _ => ⟨_, rfl⟩)
  | @asking _ _ _ proc tag pay control sent short arrived inFlight serving waits cost =>
    have whole : pay.length = (newQuint tag pay.length channel).n := by
      rw [n_newQuint, Nat.mod_eq_of_lt short]
    have its' : (newQuint tag pay.length channel).p = channel := by
      rw [p_newQuint, Nat.mod_eq_of_lt small]
    obtain ⟨next, read, -⟩ := serving.frame host whole its' waits.command
    refine .inr ⟨.frame, ?_⟩
    rw [step_frame sent short, serve, read]
    exact ⟨_, trivial, rfl⟩
  | @handing _ _ _ proc tag pay control still serving waits cost =>
    refine .inr ?_
    rcases waits with talk | ⟨⟨starts, -⟩, -⟩
    · have accepts : ∃ stage, proc.stage.accept host pay = .ok stage := talk.accepts
      obtain ⟨stage, accepts⟩ := accepts
      refine ⟨.deliver, ?_⟩
      rw [RCommand.step, serve, serving.deliver_eq talk.expected accepts]
      exact ⟨_, trivial, rfl⟩
    · by_cases zero : proc.channel = 0
      · have found : s.session.procs[done.length]? = some proc := by
          rw [serving.procs, getElem?_last]
        have run : runStep host s.session done.length (outcomeOf host s.remote proc (.done [])) =
            some { s.session with crashed := true } := by
          rw [runStep, found, Option.bind_some, starts]
          dsimp only
          rw [if_pos zero]
        exact runs serving.alive serving.procs run
      · have run := serving.run_start host (outcomeOf host s.remote proc (.done [])) starts
          (serving.channel ▸ zero)
        rw [Mux.step, if_neg (ne_true_of_eq_false serving.alive)] at run
        exact runs serving.alive serving.procs run
  | @storing _ _ _ proc _ _ _ _ _ _ control still serving takes does onward cost =>
    have apart : proc.stage ≠ .start := by
      rw [takes]
      exact Stage.noConfusion
    exact .inr (runs serving.alive serving.procs
      (started apart (runStep_of_take serving.procs takes rfl)))
  | @working _ _ _ proc _ _ _ _ _ control still serving puts does onward cost =>
    have apart : proc.stage ≠ .start := by
      intro starts
      rw [starts] at puts
      cases puts
    exact .inr (runs serving.alive serving.procs
      (started apart (runStep_of_puts serving.procs puts rfl)))
  | telling way serving does onward cost =>
    refine .inr (way.willing (its ▸ small) fun room => ?_)
    obtain ⟨result, acts⟩ := does.can _ (n_of_room room)
    rw [act, if_neg (by decide), if_pos rfl, its]
    exact ⟨result, acts⟩
  | @ending _ _ verdict control still closes said ends cost =>
    obtain ⟨proc, procs, channels, at_stage, packet⟩ := closes.procs
    have puts : proc.stage.puts host = some (CMD_END_MUX, verdict, .finished) := by
      rw [at_stage]
      rfl
    have apart : proc.stage ≠ .start := by
      rw [at_stage]
      exact Stage.noConfusion
    exact .inr (runs closes.alive procs (started apart (runStep_of_puts procs puts rfl)))
  | judging way closes logged ends cost =>
    refine .inr (way.willing (its ▸ small) fun _ => ?_)
    rw [act, if_pos rfl]
    exact ⟨_, rfl⟩
  | ended control still closes logged ends cost =>
    rcases closes.loop with ⟨loop, -⟩ | ⟨loop, -⟩
    · obtain ⟨proc, procs, -, -, packet⟩ := closes.procs
      refine .inr ⟨.loop (.done []), ?_⟩
      rw [RCommand.step, serve, Mux.step, if_neg (ne_true_of_eq_false closes.alive), loopStep, loop]
      dsimp only
      rw [procs, getElem?_last, Option.map_some]
      exact ⟨_, rfl, rfl⟩
    · exact .inl ⟨⟨_, control⟩, loop⟩

/-- A fair run is in a phase at its end, and has taken no more steps than it had left. -/
theorem Phase.run {actions : List Action} (phase : Phase host channel good done bound s)
    (its : s.client.channel = channel) (small : channel < 65536)
    (meets : Meets (RCommand.step host) Fair s actions)
    (reached : Run.run (RCommand.step host) s actions = some t) : ∃ left,
      actions.length + left ≤ bound ∧ t.client.channel = channel ∧
        Phase host channel good done left t := by
  induction actions generalizing s bound with
  | nil =>
    obtain rfl := Option.some.inj reached
    exact ⟨bound, by rw [List.length_nil, Nat.zero_add], its, phase⟩
  | cons action rest inductionHypothesis =>
    obtain ⟨next, stepped, onward⟩ := run_cons_eq_some.mp reached
    obtain ⟨less, fewer, phase'⟩ := phase.step its small meets.1 stepped
    obtain ⟨left, within, its', last⟩ := inductionHypothesis phase'
      ((channel_step stepped).trans its) (meets.2 next stepped) onward
    exact ⟨left, by rw [List.length_cons]; omega, its', last⟩

end

end Frobio.RCommand
