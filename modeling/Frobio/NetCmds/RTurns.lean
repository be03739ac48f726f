/-
This file is about whose turn it is in a transfer.

`Talk` says that from some point on the conversation goes to its end and ends well, when each side
does its part: it is about the stages of the goroutine, the messages, and what they do to the files.
`Phase` says where a running transfer stands in its conversation. Every step of a fair run leads from
phase to phase (`Phase.step`), and each leaves less to do.
-/

import Frobio.NetCmds.RTransfer

namespace Frobio.RCommand

open Coms SlashPath Mux Run

/-! ### The conversation -/

/-- The command takes the message, which changes the local files, and asks again. -/
structure Does (channel : Nat) (here : Local) (message : Text) (here' : Local) (tag : UInt8)
    (pay : Text) : Prop where
  said : message ≠ []
  short : pay.length < 65536
  does : ∀ (q : Quint) (os9 : Os9) (result : Result), q.n = message.length →
    os9.Succeeds (message.length - 1) →
    (∀ answers, os9 = .wrote answers →
      Stdio.Repeats (fun a => (q.bytes ++ message).getD a 0) 6
        (Stdio.counts answers (message.length - 1)) 0) →
    onMid channel q message os9 here = some result →
      result = (.quint tag, here', (Message.of tag channel pay).bytes)
  can : ∀ q, q.n = message.length → ∃ result, onMid channel q message .done here = some result

/-- What is to hold at the end: of the local files, the files of the host, and the verdict. -/
abbrev Goal := (Text → Option Text) → (Text → Text) → Text → Prop

/-- With these local files and files of the host, and this request to a goroutine at this stage, the
conversation goes to its end, and ends well. It costs no more than the number says. -/
inductive Talk (host : Host) (channel : Nat) (good : Goal) :
    Nat → Local → (Text → Text) → Stage → UInt8 → Text → Prop
  | last {total : Nat} {here : Local} {remote : Text → Text} {verdict : Text}
      (ends : good here.files remote verdict) (said : verdict ≠ []) (cost : verdict.length + 20 ≤ total) :
      Talk host channel good total here remote (.exitEnd verdict) CMD_END_MUX []
  | round {total left : Nat} {here here' : Local} {remote : Text → Text} {stage said next : Stage}
      {message pay pay' : Text} {tag' : UInt8}
      (expects : stage.expected = some CMD_MID_MUX) (accepts : stage.accept host pay = .ok said)
      (puts : said.puts host = some (CMD_MID_MUX, message, next))
      (does : Does channel here message here' tag' pay')
      (onward : Talk host channel good left here' remote next tag' pay')
      (cost : left + message.length + 20 ≤ total) :
      Talk host channel good total here remote stage CMD_MID_MUX pay
  | stores {total left : Nat} {here here' : Local} {remote : Text → Text} {stage : Stage}
      {src dest data pay pay' : Text} {tag' : UInt8}
      (expects : stage.expected = some CMD_MID_MUX)
      (accepts : stage.accept host pay = .ok (.take src dest data))
      (does : Does channel here (ascii "6") here' tag' pay')
      (onward : Talk host channel good left here'
        (Function.update remote (longName host dest) (remote (longName host dest) ++ data))
        (.packet src dest) tag' pay')
      (cost : left + 25 ≤ total) :
      Talk host channel good total here remote stage CMD_MID_MUX pay

section

variable {host : Host} {channel : Nat} {good : Goal}
  {total : Nat} {here : Local} {remote : Text → Text} {stage : Stage} {tag : UInt8} {pay : Text}

theorem Talk.expected (talk : Talk host channel good total here remote stage tag pay) :
    stage.expected = some tag := by
  cases talk with
  | last => rfl
  | round expects => exact expects
  | stores expects => exact expects

theorem Talk.command (talk : Talk host channel good total here remote stage tag pay) :
    tag = CMD_MID_MUX ∨ tag = CMD_END_MUX := by
  cases talk with
  | last => exact .inr rfl
  | round => exact .inl rfl
  | stores => exact .inl rfl

theorem Talk.accepts (talk : Talk host channel good total here remote stage tag pay) :
    ∃ said, stage.accept host pay = .ok said := by
  cases talk with
  | last => exact ⟨_, rfl⟩
  | round _ accepts => exact ⟨_, accepts⟩
  | stores _ accepts => exact ⟨_, accepts⟩

theorem Talk.mono {more : Nat} (talk : Talk host channel good total here remote stage tag pay)
    (le : total ≤ more) : Talk host channel good more here remote stage tag pay := by
  cases talk with
  | last ends said cost => exact .last ends said (cost.trans le)
  | round expects accepts puts does onward cost =>
    exact .round expects accepts puts does onward (cost.trans le)
  | stores expects accepts does onward cost =>
    exact .stores expects accepts does onward (cost.trans le)

end

/-- The goroutine has not started, and whatever it finds in its file, the conversation goes well. -/
def Starts (host : Host) (channel : Nat) (good : Goal) (total : Nat)
    (here : Local) (remote : Text → Text) (proc : Proc) : Prop :=
  proc.stage = .start ∧ ∀ cuts, Talk host channel good total here
    (rewrites host remote proc (.done cuts))
    (runCommand host proc.fn proc.argv (outcomeOf host remote proc (.done cuts))).next
    CMD_MID_MUX []

/-- The goroutine waits for the request, or has not started and will. -/
def Waits (host : Host) (channel : Nat) (good : Goal) (total : Nat)
    (here : Local) (remote : Text → Text) (proc : Proc) (tag : UInt8) (pay : Text) : Prop :=
  Talk host channel good total here remote proc.stage tag pay ∨
    (Starts host channel good total here remote proc ∧ tag = CMD_MID_MUX ∧ pay = [])

/-- A goroutine that has not started has one step more to take. -/
def pending (proc : Proc) : Nat := if proc.stage = .start then 1 else 0

/-! ### The session -/

/-- The session serves one command, with its last goroutine. -/
structure Serving (done : List Proc) (channel : Nat) (session : Session) (proc : Proc)
    (loop : Loop) : Prop where
  procs : session.procs = done ++ [proc]
  finished : ∀ other ∈ done, other.stage = .finished
  table : session.procTable = Function.update (fun _ => none) channel (some done.length)
  loop : session.loop = loop
  alive : session.crashed = false
  channel : proc.channel = channel
  opened : proc.inPacket = .opened

/-- The END has come: the entry is deleted, or will be. -/
structure Closing (done : List Proc) (channel : Nat) (session : Session) (stage : Stage) : Prop where
  procs : ∃ proc, session.procs = done ++ [proc] ∧ proc.channel = channel ∧ proc.stage = stage ∧
    proc.inPacket ≠ .nil
  finished : ∀ other ∈ done, other.stage = .finished
  alive : session.crashed = false
  loop : (session.loop = .close done.length channel ∧
      session.procTable = Function.update (fun _ => none) channel (some done.length)) ∨
    (session.loop = .ready ∧ session.procTable = fun _ => none)

def closing (session : Session) : Nat := if session.loop = .ready then 0 else 1

section

variable {host : Host} {done : List Proc} {channel : Nat} {session next : Session} {proc : Proc}
  {loop : Loop}

theorem getElem?_last : (done ++ [proc])[done.length]? = some proc := List.getElem?_concat_length

theorem set_last (other : Proc) : (done ++ [proc]).set done.length other = done ++ [other] := by
  rw [List.set_append_right _ _ le_rfl, Nat.sub_self]
  rfl

/-- The goroutines before it have finished, and do nothing. -/
theorem runStep_of_ne {id : Nat} (outcome : Outcome)
    (procs : session.procs = done ++ [proc]) (finished : ∀ other ∈ done, other.stage = .finished)
    (apart : id ≠ done.length) : runStep host session id outcome = none := by
  rw [runStep, procs]
  rcases Nat.lt_or_gt_of_ne apart with before | after
  · have member : done[id] ∈ done := List.getElem_mem before
    rw [List.getElem?_append_left before, List.getElem?_eq_getElem before, Option.bind_some]
    simp [finished _ member, Stage.puts, Stage.expected]
  · rw [List.getElem?_eq_none, Option.bind_none]
    rw [List.length_append, List.length_singleton]
    exact after

/-- A frame for the goroutine is taken to it. -/
theorem Serving.frame (host : Host) {q : Quint} {pay : Text}
    (serving : Serving done channel session proc .ready)
    (whole : pay.length = q.n) (its : q.p = channel)
    (command : q.command = CMD_MID_MUX ∨ q.command = CMD_END_MUX) : ∃ next,
      Mux.step host session (.frame q pay) = some next ∧
        Serving done channel next proc (.send done.length channel q.command pay) := by
  have entry : session.procTable q.p = some done.length := by
    rw [serving.table, its, Function.update_self]
  refine ⟨{ session with
    log := session.log ++ [.frame q], loop := .send done.length channel q.command pay }, ?_,
    ⟨serving.procs, serving.finished, serving.table, rfl, serving.alive, serving.channel,
      serving.opened⟩⟩
  rw [Mux.step, if_neg (ne_true_of_eq_false serving.alive)]
  rw [readFrame, if_pos ⟨serving.loop, whole⟩]
  have notBegin : q.command ≠ CMD_BEGIN_MUX := by
    rcases command with mid | last
    · rw [mid]
      decide
    · rw [last]
      decide
  dsimp only
  rw [if_neg notBegin]
  rcases command with mid | last
  · rw [if_pos mid, midMux, sendMux]
    dsimp only
    rw [entry, mid, its]
  · have notMid : q.command ≠ CMD_MID_MUX := by
      rw [last]
      decide
    rw [if_neg notMid, if_pos last, endMux, sendMux]
    dsimp only
    rw [entry, last, its]

/-- The goroutine takes its packet when it waits for it. -/
theorem Serving.deliver_eq {tag : UInt8} {pay : Text} {stage : Stage}
    (serving : Serving done channel session proc (.send done.length channel tag pay))
    (expects : proc.stage.expected = some tag) (accepts : proc.stage.accept host pay = .ok stage) :
    Mux.step host session .deliver = some { session with
      loop := if tag = CMD_END_MUX then .close done.length channel else .ready
      procs := done ++ [{ proc with stage }] } := by
  rw [Mux.step, if_neg (ne_true_of_eq_false serving.alive)]
  rw [deliver, serving.loop]
  dsimp only
  rw [serving.procs, getElem?_last, Option.bind_some, expects, Option.bind_some,
    if_pos serving.opened, Stage.lowGetOne_self, accepts]
  dsimp only
  rw [set_last]

theorem Serving.deliver_eq_none {tag : UInt8} {pay : Text}
    (serving : Serving done channel session proc (.send done.length channel tag pay))
    (expects : proc.stage.expected = none) : Mux.step host session .deliver = none := by
  rw [Mux.step, if_neg (ne_true_of_eq_false serving.alive)]
  rw [deliver, serving.loop]
  dsimp only
  rw [serving.procs, getElem?_last, Option.bind_some, expects, Option.bind_none]

/-- The goroutine starts. -/
theorem Serving.run_start (host : Host) (outcome : Outcome)
    (serving : Serving done channel session proc loop)
    (starts : proc.stage = .start) (nonzero : channel ≠ 0) :
    Mux.step host session (.run done.length outcome) = some { session with
      procs := done ++ [{ proc with
        stage := (runCommand host proc.fn proc.argv outcome).next }] } := by
  rw [Mux.step, if_neg (ne_true_of_eq_false serving.alive)]
  rw [runStep, serving.procs, getElem?_last, Option.bind_some, starts]
  dsimp only
  rw [serving.channel, if_neg nonzero, set_last]

/-- A goroutine that waits for a request does nothing else, and no more does one that has
finished. -/
theorem runStep_of_waits (outcome : Outcome) (procs : session.procs = done ++ [proc])
    (waits : proc.stage.expected ≠ none ∧ proc.inPacket = .opened ∨ proc.stage = .finished) :
    runStep host session done.length outcome = none := by
  rw [runStep, procs, getElem?_last, Option.bind_some]
  rcases waits with ⟨expects, opened⟩ | finished
  · obtain ⟨tag, expects⟩ := Option.ne_none_iff_exists'.mp expects
    cases stage : proc.stage <;> rw [stage] at expects <;>
      first
      | (simp [Stage.puts, opened]; done)
      | cases expects
  · rw [finished]
    simp [Stage.puts, Stage.expected]

/-- The goroutine writes. -/
theorem runStep_of_puts {outcome : Outcome} {command : UInt8} {payload : Text} {after : Stage}
    (procs : session.procs = done ++ [proc])
    (puts : proc.stage.puts host = some (command, payload, after))
    (succeeds : outcome.fails = false) :
    runStep host session done.length outcome = some { session with
      procs := done ++ [{ proc with stage := after }]
      log := session.log ++
        [.reply (.proc done.length) (replyQuint command proc.channel payload) payload] } := by
  rw [runStep, procs, getElem?_last, Option.bind_some]
  cases stage : proc.stage <;> rw [stage] at puts <;>
    first
    | (cases puts; done)
    | (dsimp only
       rw [puts]
       dsimp only
       rw [set_last]
       cases outcome with
       | failed err => cases succeeds
       | done => rfl
       | opened reads ending => rfl)

/-- The goroutine writes to the file of the host. -/
theorem runStep_of_take {outcome : Outcome} {src dest data : Text}
    (procs : session.procs = done ++ [proc]) (takes : proc.stage = .take src dest data)
    (succeeds : outcome.fails = false) :
    runStep host session done.length outcome = some { session with
      procs := done ++ [{ proc with stage := .ask src dest }] } := by
  rw [runStep, procs, getElem?_last, Option.bind_some, takes]
  dsimp only
  rw [set_last]
  cases outcome with
  | failed err => cases succeeds
  | done => rfl
  | opened reads ending => rfl

end

/-! ### Messages -/

/-- The message has a place in `inbuf`. -/
def Room (cmd : UInt8) (payload : Text) : Prop :=
  5 + payload.length + 1 ≤ bufSize ∧ (cmd = CMD_END_MUX →
    5 + payload.length + 2 ≤ bufSize ∨ payload.getLast? = some 10 ∨ payload.getLast? = some 13)

theorem n_of_room {cmd : UInt8} {payload : Text} {channel : Nat} (room : Room cmd payload) :
    (newQuint cmd payload.length channel).n = payload.length := by
  have bound := room.1
  unfold bufSize MAX_MSG_LEN at bound
  rw [n_newQuint, Nat.mod_eq_of_lt (by omega)]

theorem recvPayload_nil {cmd : UInt8} {payload : Text} {channel channel' : Nat} {os9 : Os9}
    {here : Local} (room : Room cmd payload) :
    recvPayload channel cmd (newQuint cmd payload.length channel') os9 here [] = none := by
  have bound := room.1
  unfold bufSize MAX_MSG_LEN at bound
  rw [recvPayload, n_of_room room, if_neg (by omega), if_pos rfl]

/-- A payload that has arrived whole, and has a place, is acted on. -/
theorem recvPayload_whole {cmd : UInt8} {payload : Text} {channel : Nat} {os9 : Os9} {here : Local}
    (small : channel < 65536) (said : payload ≠ []) (room : Room cmd payload) :
    recvPayload channel cmd (newQuint cmd payload.length channel) os9 here payload =
      (act channel cmd (newQuint cmd payload.length channel) payload os9 here).map
        fun result => (result, []) := by
  have bound := room.1
  have its : (newQuint cmd payload.length channel).p = channel := by
    rw [p_newQuint, Nat.mod_eq_of_lt small]
  have read : readFull payload.length payload = some (payload, []) := by
    have whole := readFull_append (rfl : payload.length = payload.length) []
    rwa [List.append_nil] at whole
  have fits : ¬bufSize < 5 + payload.length := by omega
  have ends : ¬bufSize < 5 + payload.length + 1 := by omega
  unfold bufSize MAX_MSG_LEN at bound
  rw [recvPayload, n_of_room room, if_neg (by omega), if_neg said, read]
  dsimp only
  rw [if_neg fits, command_newQuint, its, if_neg (by simp), if_neg ends]

/-- The message is on its way to the command, which waits for it. -/
structure OnItsWay (s : State) (cmd : UInt8) (payload : Text) : Prop where
  said : payload ≠ []
  nothing : s.toServer = []
  coming : (s.client.control = .quint cmd ∧
      s.arrived ++ s.inFlight = (Message.of cmd s.client.channel payload).bytes) ∨
    (s.client.control = .payload cmd (newQuint cmd payload.length s.client.channel) ∧
      s.arrived ++ s.inFlight = payload ∧ Room cmd payload)

/-- A bound on the steps until the command has the message. -/
def wayLeft (s : State) : Nat :=
  s.inFlight.length + match s.client.control with | .quint _ => 1 | _ => 0

section

variable {host : Host} {s t : State} {cmd : UInt8} {payload : Text}

theorem OnItsWay.arrive {count : Nat} (way : OnItsWay s cmd payload)
    (stepped : step host s (.arrive count) = some t) :
    OnItsWay t cmd payload ∧ wayLeft t < wayLeft s ∧ t.client = s.client ∧
      t.session = s.session ∧ t.remote = s.remote := by
  rw [step] at stepped
  split at stepped
  · rename_i some
    obtain rfl := Option.some.inj stepped
    refine ⟨⟨way.said, way.nothing, ?_⟩, ?_, rfl, rfl, rfl⟩
    · dsimp only
      rw [List.append_assoc, List.take_append_drop]
      exact way.coming
    · unfold wayLeft
      dsimp only
      rw [List.length_drop]
      omega
  · cases stepped

/-- The command takes a part of the message that has arrived: its quint, or its payload, which it
acts on. -/
theorem OnItsWay.client {os9 : Os9} (way : OnItsWay s cmd payload)
    (small : s.client.channel < 65536) (timely : Timely s) (fits : Fits s)
    (stepped : step host s (.client os9) = some t) :
    (OnItsWay t cmd payload ∧ wayLeft t < wayLeft s ∧ t.client.channel = s.client.channel ∧
      t.client.here = s.client.here ∧ t.session = s.session ∧ t.remote = s.remote) ∨
    ∃ result, s.client.control =
        .payload cmd (newQuint cmd payload.length s.client.channel) ∧ Room cmd payload ∧
      s.arrived = payload ∧ s.inFlight = [] ∧
      act s.client.channel cmd (newQuint cmd payload.length s.client.channel) payload os9
        s.client.here = some result ∧
      t = { s with
        client := { s.client with control := result.1, here := result.2.1 }
        arrived := []
        toServer := result.2.2 } := by
  rw [step] at stepped
  obtain ⟨⟨⟨control, here, sent⟩, rest⟩, goes, rfl⟩ := Option.map_eq_some_iff.mp stepped
  rw [Client.next] at goes
  rcases way.coming with ⟨before, coming⟩ | ⟨before, coming, room⟩
  · refine .inl ?_
    rw [before] at goes
    dsimp only at goes
    rw [Timely, before] at timely
    rw [Fits, before] at fits
    dsimp only at timely fits
    rw [recvQuint] at goes
    split at goes
    · cases goes
    rename_i some
    have enough := timely.resolve_left some
    -- the first five bytes are those of the quint
    obtain ⟨q, more, five⟩ : ∃ (q : Quint) (more : Text), s.arrived = q.bytes ++ more := by
      match arrived : s.arrived with
      | a :: b :: c :: d :: e :: more => exact ⟨⟨a, b, c, d, e⟩, more, rfl⟩
      | [] | [_] | [_, _] | [_, _, _] | [_, _, _, _] => simp [arrived] at enough
    rw [five, List.append_assoc, Message.bytes, Message.of] at coming
    obtain ⟨rfl, onward⟩ := bytes_append_inj coming
    have room : Room cmd payload := by
      have whole : s.arrived ++ s.inFlight =
          (newQuint cmd payload.length s.client.channel).bytes ++ payload := by
        rw [five, List.append_assoc, onward]
      rw [whole, List.length_append, Quint.length_bytes] at fits
      refine ⟨fits.1, fun last => (fits.2 last).imp id fun newline => ?_⟩
      rwa [List.getLast?_append_of_ne_nil _ way.said] at newline
    have long : ¬(payload.length = 0 ∨ 1200 < payload.length) := by
      have := room.1
      unfold bufSize MAX_MSG_LEN at this
      have := List.length_pos_iff.mpr way.said
      omega
    rw [five, readQuint_bytes] at goes
    dsimp only at goes
    rw [n_of_room room, if_neg long] at goes
    cases goes
    refine ⟨⟨way.said, ?_, .inr ⟨rfl, onward, room⟩⟩, ?_, rfl, rfl, rfl, rfl⟩
    · dsimp only
      rw [way.nothing, List.append_nil]
    · unfold wayLeft
      dsimp only
      rw [before]
      exact Nat.lt_succ_self _
  · refine .inr ?_
    rw [before] at goes
    dsimp only at goes
    rw [Timely, before] at timely
    dsimp only at timely
    rw [n_of_room room] at timely
    have some : s.arrived ≠ [] := by
      intro nothing
      rw [nothing, recvPayload_nil room] at goes
      cases goes
    have enough := timely.resolve_left some
    -- all of the payload has arrived
    have total : s.arrived.length + s.inFlight.length = payload.length := by
      rw [← List.length_append, coming]
    have none : s.inFlight = [] := List.length_eq_zero_iff.mp (by omega)
    have all : s.arrived = payload := by
      rw [none, List.append_nil] at coming
      exact coming
    rw [all, recvPayload_whole small way.said room] at goes
    obtain ⟨result, acts, same⟩ := Option.map_eq_some_iff.mp goes
    cases same
    refine ⟨(control, here, sent), before, room, all, none, acts, ?_⟩
    dsimp only
    rw [way.nothing, List.nil_append]

/-- It goes on, if the command can act on it. -/
theorem OnItsWay.progress (host : Host) (way : OnItsWay s cmd payload)
    (small : s.client.channel < 65536)
    (can : Room cmd payload → ∃ result, act s.client.channel cmd
      (newQuint cmd payload.length s.client.channel) payload .done s.client.here = some result) :
    (∃ count t, step host s (.arrive count) = some t) ∨ ∃ t, step host s (.client .done) = some t := by
  by_cases none : s.inFlight = []
  · refine .inr ?_
    rw [step]
    have next : ∃ result, s.client.next .done s.arrived = some result := by
      have coming := way.coming
      rw [none, List.append_nil] at coming
      rw [Client.next]
      rcases coming with ⟨before, coming⟩ | ⟨before, coming, room⟩
      · rw [before]
        dsimp only
        rw [recvQuint, if_neg (by rw [coming]; exact List.cons_ne_nil _ _), coming, Message.bytes,
          readQuint_bytes]
        dsimp only
        split
        · exact ⟨_, rfl⟩
        · exact ⟨_, rfl⟩
      · rw [before]
        dsimp only
        obtain ⟨result, acts⟩ := can room
        rw [coming, recvPayload_whole small way.said room, acts]
        exact ⟨_, rfl⟩
    obtain ⟨result, next⟩ := next
    rw [next]
    exact ⟨_, rfl⟩
  · refine .inl ⟨s.inFlight.length, ?_⟩
    rw [step, if_pos ⟨List.length_pos_iff.mpr none, le_rfl⟩]
    exact ⟨_, rfl⟩

end

end Frobio.RCommand
