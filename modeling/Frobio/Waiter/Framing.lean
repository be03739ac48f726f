/-
This file says when the stream of a connection is the messages that were sent.

A quint counts its payload with sixteen bits, so a payload of 65536 bytes or more is
read short and what is left of it is taken for the next quint. The reply to a LemMan
request comes in two writes, and a mux message in between is taken for its bytes. If
neither happens the other end reads the messages as they were sent, and if one does
it never reads them again: `framed_iff` is exact.
-/

import Frobio.Lib.Run
import Frobio.Waiter.Connection

namespace Frobio.Waiter

open Coms SlashPath Run Stream

/-! ### The replies of LemMan -/

/-- A Read or ReadLn that passes so many bytes that the reply has more than sixteen bits count. -/
def LongRead (g : LemMan.Globals) (request : LemMan.Request) (pd : Nat) : Prop :=
  LemMan.headerLen ≤ request.input.length ∧ ∃ p buf, g.lmPaths pd = some p ∧ p.offset < p.size ∧
    LemMan.readPath g p (min (LemMan.regsOf request.input).ry (p.size - p.offset)) = some buf ∧
    (((LemMan.opOf request.input).toNat = 7 ∧ 65521 ≤ buf.length) ∨
      ((LemMan.opOf request.input).toNat = 9 ∧ 65521 ≤ (LemMan.chopLine buf).length))

/-- A status that is no command of the mux. -/
def PlainStatus (status : UInt8) : Prop := status ∉ Mux.muxCommands

instance (status : UInt8) : Decidable (PlainStatus status) := inferInstanceAs (Decidable (¬_))

theorem plainStatus_lemmaError (prev : UInt8) : PlainStatus (LemMan.lemmaError prev) := by
  have all : ∀ n < 256, LemMan.lemmaError (UInt8.ofNat n) ∉ Mux.muxCommands := by decide +kernel
  have at_prev := all prev.toNat prev.toNat_lt
  rwa [UInt8.ofNat_toNat] at at_prev

theorem plainStatus_okay : PlainStatus 0 := by decide +kernel

/-- What is sent back, if anything is, has a plain status and less than 256 bytes. -/
def Short (outcome : LemMan.Outcome) : Prop :=
  ∀ reply, outcome.reply = some reply → PlainStatus reply.status ∧ reply.payload.length < 256

theorem short_panicked {g : LemMan.Globals} {effects : List LemMan.Effect} :
    Short (LemMan.panicked g effects) := nofun

theorem short_answer {g : LemMan.Globals} {status : UInt8} {regs : LemMan.LMRegs}
    {payload : Text} {effects : List LemMan.Effect} (plain : PlainStatus status)
    (short : payload.length < 256) :
    Short (LemMan.answer g status regs payload effects) := by
  rintro reply ⟨⟩
  exact ⟨plain, short⟩

theorem short_refuse {g : LemMan.Globals} {regs : LemMan.LMRegs} {effects : List LemMan.Effect} :
    Short (LemMan.refuse g regs effects) :=
  short_answer (plainStatus_lemmaError _) (by decide)

theorem short_okay {g : LemMan.Globals} {regs : LemMan.LMRegs} {effects : List LemMan.Effect} :
    Short (LemMan.answer g 0 regs [] effects) :=
  short_answer plainStatus_okay (by decide)

theorem short_badPath {g : LemMan.Globals} {regs : LemMan.LMRegs} {effects : List LemMan.Effect} :
    Short (LemMan.answer g LemMan.E_BPNum regs [] effects) :=
  short_answer (by decide +kernel) (by decide)

theorem short_fdInf {host : LemMan.Host} {g : LemMan.Globals} {info : LemMan.FileInfo}
    {regs : LemMan.LMRegs} : Short (LemMan.fdInf host g info regs) := by
  rw [LemMan.fdInf]
  dsimp only
  split
  · exact short_panicked
  · split
    · exact short_panicked
    · split
      · exact short_panicked
      · split
        · exact short_panicked
        · refine short_answer plainStatus_okay ?_
          rw [List.length_take]
          exact lt_of_le_of_lt (Nat.min_le_left _ _) (Nat.mod_lt _ (by decide))

theorem short_lmGetStt {host : LemMan.Host} {g : LemMan.Globals} {pd : Nat}
    {info : LemMan.FileInfo} {regs : LemMan.LMRegs} :
    Short (LemMan.lmGetStt host g pd info regs) := by
  rw [LemMan.lmGetStt]
  split
  · exact short_badPath
  · split
    · exact short_fdInf
    · exact short_okay

theorem short_lmDelete {host : LemMan.Host} {g : LemMan.Globals} {regs : LemMan.LMRegs}
    {name : Text} : Short (LemMan.lmDelete host g regs name) := by
  rw [LemMan.lmDelete]
  split
  · exact short_refuse
  · exact short_okay

theorem short_lmSeek {g : LemMan.Globals} {pd : Nat} {regs : LemMan.LMRegs} :
    Short (LemMan.lmSeek g pd regs) := by
  rw [LemMan.lmSeek]
  split
  · exact short_badPath
  · exact short_okay

theorem short_lmClose {g : LemMan.Globals} {pd : Nat} {regs : LemMan.LMRegs} :
    Short (LemMan.lmClose g pd regs) := by
  rw [LemMan.lmClose]
  split
  · exact short_badPath
  · exact short_okay

theorem short_lmWrite {g : LemMan.Globals} {pd : Nat} {regs : LemMan.LMRegs} {payIn : Text} :
    Short (LemMan.lmWrite g pd regs payIn) := by
  rw [LemMan.lmWrite]
  split
  · exact short_badPath
  · split
    · exact short_refuse
    · split
      · exact short_refuse
      · split
        · exact short_refuse
        · split
          · exact short_panicked
          · exact short_refuse
          · exact short_okay

theorem short_opened {g : LemMan.Globals} {pd : Nat} {p : LemMan.LMPath} {regs : LemMan.LMRegs}
    {name : Text} {effects : List LemMan.Effect} :
    Short (LemMan.opened g pd p regs name effects) := short_okay

theorem short_createPath {host : LemMan.Host} {g : LemMan.Globals} {pd : Nat}
    {regs : LemMan.LMRegs} {mode : UInt8} {name jname : Text} :
    Short (LemMan.createPath host g pd regs mode name jname) := by
  rw [LemMan.createPath]
  split
  · exact short_refuse
  · split
    · exact short_refuse
    · exact short_opened

theorem short_openPath {host : LemMan.Host} {g : LemMan.Globals} {pd : Nat}
    {regs : LemMan.LMRegs} {mode : UInt8} {name jname : Text} :
    Short (LemMan.openPath host g pd regs mode name jname) := by
  rw [LemMan.openPath]
  split
  · exact short_refuse
  · split
    · exact short_refuse
    · split
      · exact short_refuse
      · exact short_opened
    · split
      · exact short_refuse
      · exact short_opened

theorem short_lmOpen {host : LemMan.Host} {g : LemMan.Globals} {pd : Nat} {regs : LemMan.LMRegs}
    {mode : UInt8} {name : Text} {create : Bool} :
    Short (LemMan.lmOpen host g pd regs mode name create) := by
  rw [LemMan.lmOpen]
  split
  · exact short_refuse
  · split
    · exact short_createPath
    · exact short_openPath

theorem short_withName {g : LemMan.Globals} {input : Text} {handle : Text → LemMan.Outcome}
    (each : ∀ name, Short (handle name)) : Short (LemMan.withName g input handle) := by
  rw [LemMan.withName]
  split
  · exact short_panicked
  · exact each _

theorem reply_lmRead {g : LemMan.Globals} {pd : Nat} {regs : LemMan.LMRegs} {linely : Bool}
    {reply : LemMan.Reply} (replied : (LemMan.lmRead g pd regs linely).reply = some reply) :
    PlainStatus reply.status ∧ (65521 ≤ reply.payload.length ↔
      ∃ p buf, g.lmPaths pd = some p ∧ p.offset < p.size ∧
        LemMan.readPath g p (min regs.ry (p.size - p.offset)) = some buf ∧
        65521 ≤ (if linely then LemMan.chopLine buf else buf).length) := by
  have few : ∀ {g : LemMan.Globals} {status : UInt8} {effects : List LemMan.Effect},
      PlainStatus status → (LemMan.answer g status regs [] effects).reply = some reply →
        PlainStatus reply.status ∧ ¬65521 ≤ reply.payload.length := by
    rintro g status effects plain ⟨⟩
    exact ⟨plain, show ¬65521 ≤ ([] : Text).length by decide⟩
  rw [LemMan.lmRead] at replied
  split at replied
  · rename_i unknown
    obtain ⟨plain, short⟩ := few (by decide +kernel) replied
    refine ⟨plain, iff_of_false short ?_⟩
    rintro ⟨p, buf, found, -⟩
    rw [unknown] at found
    cases found
  · rename_i p known
    split at replied
    · rename_i past
      obtain ⟨plain, short⟩ := few (by decide +kernel) replied
      refine ⟨plain, iff_of_false short ?_⟩
      rintro ⟨p', buf, found, before, -⟩
      rw [known, Option.some_inj] at found
      subst found
      exact absurd before (Nat.not_lt.mpr past)
    · rename_i before
      split at replied
      · rename_i failed
        obtain ⟨plain, short⟩ := few (plainStatus_lemmaError _) replied
        refine ⟨plain, iff_of_false short ?_⟩
        rintro ⟨p', buf, found, -, read, -⟩
        rw [known, Option.some_inj] at found
        subst found
        rw [failed] at read
        cases read
      · rename_i buf read
        cases replied
        refine ⟨plainStatus_okay, ?_⟩
        constructor
        · exact fun long => ⟨p, buf, known, Nat.not_le.mp before, read, long⟩
        · rintro ⟨p', buf', found, -, read', long⟩
          rw [known, Option.some_inj] at found
          subst found
          rw [read, Option.some_inj] at read'
          exact read' ▸ long

/-- A reply has a plain status, and is too long only to a long Read. -/
theorem reply_doLemMan {host : LemMan.Host} {g : LemMan.Globals} {request : LemMan.Request}
    {pd : Nat} {reply : LemMan.Reply}
    (replied : (LemMan.doLemMan host g request pd).reply = some reply) :
    PlainStatus reply.status ∧ (65521 ≤ reply.payload.length ↔ LongRead g request pd) := by
  rw [LemMan.doLemMan] at replied
  split at replied
  · cases replied
  rename_i header
  have other : ∀ {outcome : LemMan.Outcome}, Short outcome →
      (LemMan.opOf request.input).toNat ≠ 7 → (LemMan.opOf request.input).toNat ≠ 9 →
      outcome.reply = some reply →
        PlainStatus reply.status ∧ (65521 ≤ reply.payload.length ↔ LongRead g request pd) := by
    intro outcome short notRead notReadLn same
    obtain ⟨plain, few⟩ := short reply same
    refine ⟨plain, iff_of_false (by omega) ?_⟩
    rintro ⟨-, p, buf, -, -, -, ⟨op, -⟩ | ⟨op, -⟩⟩
    · exact notRead op
    · exact notReadLn op
  rw [LongRead] at *
  generalize operation : (LemMan.opOf request.input).toNat = op at *
  split at replied
  · exact other (short_withName fun _ => short_lmOpen) (by decide) (by decide) replied
  · exact other (short_withName fun _ => short_lmOpen) (by decide) (by decide) replied
  · exact other (short_withName fun _ => short_refuse) (by decide) (by decide) replied
  · exact other (short_withName fun _ => short_okay) (by decide) (by decide) replied
  · exact other (short_withName fun _ => short_lmDelete) (by decide) (by decide) replied
  · exact other short_lmSeek (by decide) (by decide) replied
  · obtain ⟨plain, long⟩ := reply_lmRead replied
    refine ⟨plain, ?_⟩
    rw [long]
    simp [Nat.not_lt.mp header]
  · exact other short_lmWrite (by decide) (by decide) replied
  · obtain ⟨plain, long⟩ := reply_lmRead replied
    refine ⟨plain, ?_⟩
    rw [long]
    simp [Nat.not_lt.mp header]
  · exact other short_lmWrite (by decide) (by decide) replied
  · exact other short_lmGetStt (by decide) (by decide) replied
  · exact other short_lmClose (by decide) (by decide) replied
  · split at replied
    · cases replied
    · exact other short_refuse (by assumption) (by assumption) replied

/-- A long Read is answered. -/
theorem LongRead.answers {host : LemMan.Host} {g : LemMan.Globals} {request : LemMan.Request}
    {pd : Nat} (long : LongRead g request pd) :
    (LemMan.doLemMan host g request pd).reply.isSome = true := by
  obtain ⟨header, p, buf, -, -, -, ⟨op, -⟩ | ⟨op, -⟩⟩ := long
  · rw [LemMan.doLemMan, if_neg (Nat.not_lt.mpr header), op]
    exact LemMan.lmRead_answers ..
  · rw [LemMan.doLemMan, if_neg (Nat.not_lt.mpr header), op]
    exact LemMan.lmRead_answers ..

/-! ### The stream -/

/-- Reading a message after the other, the other end reads the messages that were sent. -/
def Framed (w : Connection) : Prop := Whole readQuintAndPayload w.sent w.conn

/-- The stream is whole, but for a reply whose quint is its end. -/
def Halfway (w : Connection) (reply : Text) : Prop :=
  ∃ sent conn p status rest,
    w.sent = sent ++ [Message.of CMD_LEMMAN_REPLY p reply] ∧
    w.conn = conn ++ (newQuint CMD_LEMMAN_REPLY reply.length p).bytes ∧
    Whole readQuintAndPayload sent conn ∧ p < 65536 ∧ reply.length < 65536 ∧
    reply = status :: rest ∧ PlainStatus status

/-- The stream has bytes that do not begin with the message they should, whatever follows. -/
def Spoiled (w : Connection) : Prop :=
  ∃ sent m later conn bytes more,
    w.sent = sent ++ m :: later ∧ w.conn = conn ++ (bytes ++ more) ∧
    Whole readQuintAndPayload sent conn ∧ Garbles readQuintAndPayload bytes m

structure Sound (w : Connection) : Prop where
  framing : Mux.Framing w.session
  between : w.pending = none → Framed w
  halfway : ∀ reply, w.pending = some reply → Halfway w reply

/-- A message of the mux fits the count and comes between no two writes of a LemMan reply, and
no Read is too long for the count. -/
def Fits (muxHost : Mux.Host) (w : Connection) : Action → Prop
  | .mux action =>
    ∀ m, Mux.written muxHost w.session action = some m →
      m.payload.length < 65536 ∧ w.pending = none
  | .lemManRequest q request => ¬LongRead w.globals request q.p
  | _ => True

theorem Spoiled.not_framed {w : Connection} (spoiled : Spoiled w) : ¬Framed w := by
  obtain ⟨sent, m, later, conn, bytes, more, sent_eq, conn_eq, whole, garbles⟩ := spoiled
  rw [Framed, sent_eq, conn_eq]
  exact whole.not_of_garbles extends_readQuintAndPayload garbles

theorem length_reply_bytes (reply : LemMan.Reply) :
    reply.bytes.length = 15 + reply.payload.length := by
  simp [LemMan.Reply.bytes, LemMan.LMRegs.writeBytes]
  omega

section

variable {muxHost : Mux.Host} {lemHost : LemMan.Host} {w next : Connection}

/-! ### Steps -/

theorem muxStep_eq_some {action : Mux.Action} :
    muxStep muxHost w action = some next →
      ∃ session, Mux.step muxHost w.session action = some session ∧
        next = { w with
          session
          conn := w.conn ++ Mux.bytesOf (Mux.written muxHost w.session action)
          sent := w.sent ++ (Mux.written muxHost w.session action).toList } := by
  intro taken
  unfold muxStep at taken
  split at taken
  · cases taken
  · obtain ⟨session, stepped, rfl⟩ := Option.map_eq_some_iff.mp taken
    exact ⟨session, stepped, rfl⟩

/-- A LemMan request is answered, with the quint of its reply, or it ends the loop. -/
theorem requestStep_cases {q : Quint} {request : LemMan.Request}
    (taken : requestStep lemHost w q request = some next) :
    w.pending = none ∧
      ((LemMan.doLemMan lemHost w.globals request q.p).reply = none ∧
          next = { w with
            session := { w.session with loop := .ended }
            globals := (LemMan.doLemMan lemHost w.globals request q.p).globals } ∨
        ∃ reply, (LemMan.doLemMan lemHost w.globals request q.p).reply = some reply ∧
          next = { w with
            globals := (LemMan.doLemMan lemHost w.globals request q.p).globals
            pending := some reply.bytes
            conn := w.conn ++ (newQuint CMD_LEMMAN_REPLY reply.bytes.length q.p).bytes
            sent := w.sent ++ [Message.of CMD_LEMMAN_REPLY q.p reply.bytes] }) := by
  rw [requestStep] at taken
  split at taken
  · rename_i ready
    refine ⟨ready.2.1, ?_⟩
    dsimp only at taken
    split at taken
    · rename_i panicked
      exact .inl ⟨panicked, (Option.some_inj.mp taken).symm⟩
    · rename_i reply replied
      exact .inr ⟨reply, replied, (Option.some_inj.mp taken).symm⟩
  · cases taken

theorem Sound.mux {action : Mux.Action} (sound : Sound w)
    (fits : Fits muxHost w (.mux action)) (taken : muxStep muxHost w action = some next) :
    Sound next := by
  obtain ⟨session, stepped, rfl⟩ := muxStep_eq_some taken
  have framing := (sound.framing.step stepped).1
  cases writes : Mux.written muxHost w.session action with
  | none =>
    refine ⟨framing, ?_, ?_⟩
    · intro settled
      rw [Framed]
      dsimp only
      rw [Mux.bytesOf, Option.elim_none, Option.toList_none, List.append_nil, List.append_nil]
      exact sound.between settled
    · intro reply waits
      rw [Halfway]
      dsimp only
      rw [Mux.bytesOf, Option.elim_none, Option.toList_none, List.append_nil, List.append_nil]
      exact sound.halfway reply waits
  | some m =>
    obtain ⟨short, settled⟩ := fits m writes
    obtain ⟨same, small, -⟩ := sound.framing.written writes
    refine ⟨framing, fun _ => ?_, fun reply waits => ?_⟩
    · have reads : readQuintAndPayload m.bytes = some (m, []) := by
        rw [same]
        exact readQuintAndPayload_of_lt short small
      exact (sound.between settled).append extends_readQuintAndPayload reads
    · rw [settled] at waits
      cases waits

theorem Sound.spoiled_mux {action : Mux.Action} (sound : Sound w)
    (fits : ¬Fits muxHost w (.mux action)) (taken : muxStep muxHost w action = some next) :
    Spoiled next := by
  obtain ⟨session, stepped, rfl⟩ := muxStep_eq_some taken
  rw [Fits] at fits
  push_neg at fits
  obtain ⟨m, writes, broken⟩ := fits
  rw [writes]
  obtain ⟨same, small, mux⟩ := sound.framing.written writes
  cases waits : w.pending with
  | none =>
    have long : 65536 ≤ m.payload.length := by
      by_contra short
      exact broken (Nat.not_le.mp short) waits
    exact ⟨w.sent, m, [], w.conn, m.bytes, [], rfl, by rw [List.append_nil]; rfl,
      sound.between waits, garbles_of_le long _⟩
  | some reply =>
    obtain ⟨sent, conn, p, status, rest, sent_eq, conn_eq, whole, -, -, reply_eq, plain⟩ :=
      sound.halfway reply waits
    refine ⟨sent, Message.of CMD_LEMMAN_REPLY p reply, [m], conn,
      (newQuint CMD_LEMMAN_REPLY reply.length p).bytes ++ m.bytes, [], ?_, ?_, whole, ?_⟩
    · dsimp only
      rw [sent_eq, List.append_assoc]
      rfl
    · dsimp only
      rw [conn_eq, List.append_nil, List.append_assoc]
      rfl
    · have apart : m.command ≠ status := fun equal => plain (equal ▸ mux)
      exact garbles_of_between reply_eq apart

theorem Sound.request {q : Quint} {request : LemMan.Request} (sound : Sound w)
    (fits : ¬LongRead w.globals request q.p) (taken : requestStep lemHost w q request = some next) :
    Sound next := by
  obtain ⟨settled, ⟨-, rfl⟩ | ⟨reply, replied, rfl⟩⟩ := requestStep_cases taken
  · exact ⟨sound.framing.loop _ nofun, sound.between, sound.halfway⟩
  · refine ⟨sound.framing, nofun, ?_⟩
    rintro _ ⟨⟩
    obtain ⟨plain, long⟩ := reply_doLemMan replied
    refine ⟨w.sent, w.conn, q.p, reply.status, _, rfl, rfl, sound.between settled, q.p_lt, ?_,
      rfl, plain⟩
    rw [length_reply_bytes]
    have := mt long.mp fits
    omega

theorem Sound.spoiled_request {q : Quint} {request : LemMan.Request} (sound : Sound w)
    (long : LongRead w.globals request q.p) (taken : requestStep lemHost w q request = some next) :
    Spoiled next := by
  obtain ⟨settled, ⟨panicked, -⟩ | ⟨reply, replied, rfl⟩⟩ := requestStep_cases taken
  · have answers : (LemMan.doLemMan lemHost w.globals request q.p).reply.isSome = true :=
      long.answers
    rw [panicked] at answers
    cases answers
  · have many := (reply_doLemMan replied).2.mpr long
    refine ⟨w.sent, Message.of CMD_LEMMAN_REPLY q.p reply.bytes, [], w.conn,
      (newQuint CMD_LEMMAN_REPLY reply.bytes.length q.p).bytes, [], rfl, ?_,
      sound.between settled, garbles_of_le ?_ _⟩
    · rw [List.append_nil]
    · show 65536 ≤ reply.bytes.length
      rw [length_reply_bytes]
      omega

theorem Sound.reply {reply : Text} (sound : Sound w) (waits : w.pending = some reply) :
    Sound { w with pending := none, conn := w.conn ++ reply } := by
  refine ⟨sound.framing, fun _ => ?_, nofun⟩
  obtain ⟨sent, conn, p, status, rest, sent_eq, conn_eq, whole, small, short, -, -⟩ :=
    sound.halfway reply waits
  rw [Framed]
  dsimp only
  rw [sent_eq, conn_eq, List.append_assoc]
  exact whole.append extends_readQuintAndPayload (readQuintAndPayload_of_lt short small)

theorem Sound.step {action : Action} (sound : Sound w) (fits : Fits muxHost w action)
    (taken : step muxHost lemHost w action = some next) : Sound next := by
  unfold Waiter.step at taken
  split at taken
  · cases taken
  cases action with
  | mux action => exact sound.mux fits taken
  | lemManRequest q request => exact sound.request fits taken
  | lemManReply =>
    dsimp only at taken
    split at taken
    · obtain ⟨reply, waits, rfl⟩ := Option.map_eq_some_iff.mp taken
      exact sound.reply waits
    · cases taken
  | hangUp =>
    cases taken
    exact ⟨sound.framing.loop _ nofun, sound.between, sound.halfway⟩
  | otherSession request pd =>
    cases taken
    exact ⟨sound.framing, sound.between, sound.halfway⟩

theorem Sound.spoiled {action : Action} (sound : Sound w) (fits : ¬Fits muxHost w action)
    (taken : Waiter.step muxHost lemHost w action = some next) : Spoiled next := by
  unfold Waiter.step at taken
  split at taken
  · cases taken
  cases action with
  | mux action => exact sound.spoiled_mux fits taken
  | lemManRequest q request => exact sound.spoiled_request (Classical.not_not.mp fits) taken
  | lemManReply => exact absurd trivial fits
  | hangUp => exact absurd trivial fits
  | otherSession request pd => exact absurd trivial fits

/-- What has been written and sent stays. -/
theorem step_grows {action : Action} (taken : Waiter.step muxHost lemHost w action = some next) :
    ∃ messages bytes, next.sent = w.sent ++ messages ∧ next.conn = w.conn ++ bytes := by
  unfold Waiter.step at taken
  split at taken
  · cases taken
  cases action with
  | mux action =>
    obtain ⟨session, -, rfl⟩ := muxStep_eq_some taken
    exact ⟨_, _, rfl, rfl⟩
  | lemManRequest q request =>
    obtain ⟨-, ⟨-, rfl⟩ | ⟨reply, -, rfl⟩⟩ := requestStep_cases taken
    · exact ⟨[], [], (List.append_nil _).symm, (List.append_nil _).symm⟩
    · exact ⟨_, _, rfl, rfl⟩
  | lemManReply =>
    dsimp only at taken
    split at taken
    · obtain ⟨reply, -, rfl⟩ := Option.map_eq_some_iff.mp taken
      exact ⟨[], reply, (List.append_nil _).symm, rfl⟩
    · cases taken
  | hangUp =>
    cases taken
    exact ⟨[], [], (List.append_nil _).symm, (List.append_nil _).symm⟩
  | otherSession request pd =>
    cases taken
    exact ⟨[], [], (List.append_nil _).symm, (List.append_nil _).symm⟩

theorem Spoiled.step {action : Action} (spoiled : Spoiled w)
    (taken : Waiter.step muxHost lemHost w action = some next) : Spoiled next := by
  obtain ⟨sent, m, later, conn, bytes, more, sent_eq, conn_eq, whole, garbles⟩ := spoiled
  obtain ⟨messages, written, sent_next, conn_next⟩ := step_grows taken
  refine ⟨sent, m, later ++ messages, conn, bytes, more ++ written, ?_, ?_, whole, garbles⟩
  · rw [sent_next, sent_eq, List.append_assoc, List.cons_append]
  · rw [conn_next, conn_eq, List.append_assoc, List.append_assoc]

end

/-! ### Runs -/

theorem Sound.start (id : Nat) (globals : LemMan.Globals) : Sound (Waiter.start id globals) where
  framing := Mux.Framing.start id
  between := fun _ => whole_nil
  halfway := nofun

/-- In every run, when no LemMan reply is half written, the other end reads the messages as they
were sent if and only if every step fits. -/
theorem framed_iff (muxHost : Mux.Host) (lemHost : LemMan.Host) (id : Nat)
    (globals : LemMan.Globals) (actions : List Action) (w : Connection)
    (reached : run (step muxHost lemHost) (start id globals) actions = some w)
    (settled : w.pending = none) :
    Framed w ↔ Meets (step muxHost lemHost) (Fits muxHost) (start id globals) actions := by
  have kept : ∀ w action next, Sound w → Fits muxHost w action →
      step muxHost lemHost w action = some next → Sound next :=
    fun _ _ _ sound fits taken => sound.step fits taken
  have spoils : ∀ w action next, Sound w → ¬Fits muxHost w action →
      step muxHost lemHost w action = some next → Spoiled next :=
    fun _ _ _ sound fits taken => sound.spoiled fits taken
  rcases meets_or_spoiled_of_run Sound Spoiled kept spoils
    (fun _ _ _ spoiled taken => spoiled.step taken) (Sound.start id globals) reached with
    ⟨meets, sound⟩ | ⟨not, spoiled⟩
  · exact iff_of_true (sound.between settled) meets
  · exact iff_of_false spoiled.not_framed not

/-- A client begins an `echo` and seeks on a path that is not open. -/
def echoAndSeek : List Action :=
  [.mux (Mux.frame CMD_BEGIN_MUX 1 (ascii "echo hi")), .mux (.loop .done), .mux (.run 0 .done),
    .mux (Mux.frame CMD_MID_MUX 1 []), .mux .deliver, .mux (.run 0 .done),
    .lemManRequest (newQuint CMD_LEMMAN_REQUEST 15 7) (LemMan.requestOf 6 0 0 0 0 []),
    .lemManReply]

theorem framed_echoAndSeek :
    ∃ w, run (step Mux.plainHost LemMan.smallHost)
        (start 1 (.start (LemMan.smallDisk LemMan.hello))) echoAndSeek = some w ∧
      (Framed w ↔ Meets (step Mux.plainHost LemMan.smallHost) (Fits Mux.plainHost)
        (start 1 (.start (LemMan.smallDisk LemMan.hello))) echoAndSeek) := by
  obtain ⟨w, reached, settled⟩ : ∃ w, run (step Mux.plainHost LemMan.smallHost)
      (start 1 (.start (LemMan.smallDisk LemMan.hello))) echoAndSeek = some w ∧
        w.pending = none :=
    Option.map_eq_some_iff.mp (by decide +kernel)
  exact ⟨w, reached, framed_iff Mux.plainHost LemMan.smallHost 1
    (.start (LemMan.smallDisk LemMan.hello)) echoAndSeek w reached settled⟩

/-! ### A name that is too long -/

/-- A word of the letter `x`. -/
def xs (count : Nat) : Text := List.replicate count 120

theorem fieldsFrom_xs (count : Nat) (word : Text) (begun : word ≠ []) :
    Mux.fieldsFrom 0 word (xs count) = [word ++ xs count] := by
  induction count generalizing word with
  | zero =>
    rw [xs, List.replicate_zero, Mux.fieldsFrom, if_neg begun, List.append_nil]
  | succ count inductionHypothesis =>
    have letter : Mux.spaceWidth (120 :: xs count) = 0 := rfl
    rw [xs, List.replicate_succ, ← xs, Mux.fieldsFrom, if_neg (Nat.lt_irrefl 0), if_pos letter,
      inductionHypothesis (word ++ [120]) (List.append_ne_nil_of_right_ne_nil _ (by decide)),
      List.append_assoc]
    rfl

theorem argvOf_xs (count : Nat) : Mux.argvOf (xs (count + 1)) = [xs (count + 1)] := by
  have letter : Mux.spaceWidth (120 :: xs count) = 0 := rfl
  have words : Mux.fields (xs (count + 1)) = [xs (count + 1)] := by
    rw [Mux.fields, xs, List.replicate_succ, ← xs, Mux.fieldsFrom, if_neg (Nat.lt_irrefl 0),
      if_pos letter, fieldsFrom_xs count ([] ++ [120]) (by decide)]
    rfl
  rw [Mux.argvOf, words]
  rfl

theorem toLower_xs (host : Mux.Host) (count : Nat) : Mux.toLower host (xs count) = xs count := by
  have plain : (xs count).all (· < 0x80) = true := by
    rw [List.all_eq_true]
    intro b member
    rw [List.eq_of_mem_replicate member]
    decide
  rw [Mux.toLower, if_pos plain, xs, List.map_replicate]
  rfl

theorem length_xs (count : Nat) : (xs count).length = count := List.length_replicate

theorem lookup_xs : Mux.commandFuncs.lookup (xs 65535) = none := by
  rw [List.lookup_eq_none_iff]
  intro entry member
  have short : ∀ entry ∈ Mux.commandFuncs, entry.1.length < 65535 := by decide
  rw [bne_iff_ne]
  intro same
  have lengths := short entry member
  rw [← same, length_xs] at lengths
  exact absurd lengths (by decide)

/-- The client begins the command of this name, and the mux answers. -/
def beginName (name : Text) : List Action :=
  [.mux (Mux.frame CMD_BEGIN_MUX 1 name), .mux (.loop .done)]

section

variable {host : Mux.Host} {name : Text}

def noSuchCommand (name : Text) : Text := ascii "- No such command: " ++ name

/-- The session as it is about to answer that there is no such command. -/
def refusing (name : Text) : Mux.Session :=
  Mux.replyOnChannel
    { Mux.start 1 with log := [.frame (Mux.replyQuint CMD_BEGIN_MUX 1 name)] }
    .loop CMD_END_MUX 1 (noSuchCommand name)

theorem step_beginName (fits : name.length < 65536) (words : Mux.argvOf name = [name])
    (lower : Mux.toLower host name = name) (unknown : Mux.commandFuncs.lookup name = none) :
    Mux.step host (Mux.start 1) (Mux.frame CMD_BEGIN_MUX 1 name) = some (refusing name) := by
  have count : name.length = (Mux.replyQuint CMD_BEGIN_MUX 1 name).n := by
    rw [Mux.replyQuint, n_newQuint, Nat.mod_eq_of_lt fits]
  have channel : (Mux.replyQuint CMD_BEGIN_MUX 1 name).p = 1 := by
    rw [Mux.replyQuint, p_newQuint]
  have begins : (Mux.replyQuint CMD_BEGIN_MUX 1 name).command = CMD_BEGIN_MUX := rfl
  have free : (Mux.start 1).procTable 1 = none := rfl
  show Mux.readFrame host (Mux.start 1) _ _ = _
  rw [Mux.readFrame, if_pos ⟨rfl, count⟩]
  dsimp only
  rw [if_pos begins, channel, Mux.beginMux]
  dsimp only
  rw [free, words]
  dsimp only
  rw [lower, unknown]
  rfl

/-- The answer to a name of 65517 bytes or more is too long for the count. -/
theorem spoiled_beginName (lemHost : LemMan.Host) (g : LemMan.Globals)
    (fits : name.length < 65536) (words : Mux.argvOf name = [name])
    (lower : Mux.toLower host name = name) (unknown : Mux.commandFuncs.lookup name = none)
    (long : 65517 ≤ name.length) :
    ∃ w, run (step host lemHost) (start 1 g) (beginName name) = some w ∧ w.pending = none ∧
      Spoiled w := by
  have first : step host lemHost (start 1 g) (.mux (Mux.frame CMD_BEGIN_MUX 1 name)) =
      some { start 1 g with session := refusing name } := by
    have begun := step_beginName fits words lower unknown
    rw [Mux.frame] at begun ⊢
    show (Mux.step host (Mux.start 1) _).map _ = _
    rw [begun]
    rfl
  have harmless : Fits host (start 1 g) (.mux (Mux.frame CMD_BEGIN_MUX 1 name)) := by
    intro m writes
    cases writes
  have sound : Sound { start 1 g with session := refusing name } :=
    (Sound.start 1 g).step harmless first
  have unfit : ¬Fits host { start 1 g with session := refusing name } (.mux (.loop .done)) := by
    intro fits
    have short : (noSuchCommand name).length < 65536 := (fits _ rfl).1
    have marked : (noSuchCommand name).length = 19 + name.length := by
      rw [noSuchCommand, List.length_append]
      rfl
    omega
  have second : step host lemHost { start 1 g with session := refusing name }
      (.mux (.loop .done)) = some _ := rfl
  exact ⟨_, run_cons_eq_some.mpr ⟨_, first, run_cons_eq_some.mpr ⟨_, second, rfl⟩⟩, rfl,
    sound.spoiled unfit second⟩

end

/-- The longest name a payload can have. -/
theorem not_framed_longName :
    ∃ w, run (step Mux.plainHost LemMan.smallHost)
        (start 1 (.start (LemMan.smallDisk LemMan.hello))) (beginName (xs 65535)) = some w ∧
      w.pending = none ∧ ¬Framed w := by
  obtain ⟨w, reached, settled, spoiled⟩ := spoiled_beginName LemMan.smallHost
    (.start (LemMan.smallDisk LemMan.hello)) (by rw [length_xs]; decide) (argvOf_xs 65534)
    (toLower_xs Mux.plainHost 65535) lookup_xs (by rw [length_xs]; decide)
  exact ⟨w, reached, settled, spoiled.not_framed⟩

end Frobio.Waiter
