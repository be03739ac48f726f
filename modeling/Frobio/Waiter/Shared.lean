/-
This file is about sessions that share the global block device `Block0` of
`lemma/waiter.go`: one open file, with one position.

A session seeks, and then reads or writes where the file is by then. Between the two the
other sessions go on; what a session reads is its sector, and what it writes its own, if
none of them has moved the file.

The file is open. `moments` are the contents of the device after each step, for the law.
-/

import Frobio.Conduit.System
import Frobio.Lib.Run

namespace Frobio.Waiter.Shared

open Coms Conduit Positional Run

/-! ### Sessions -/

/-- How far a session is with a command, and the moment the command arrived. -/
inductive Control
  | ready
  | arrived (q : Quint) (since : Nat)
  | sought (q : Quint) (since : Nat)
  /-- The bytes of a write have been read from the connection. -/
  | payload (q : Quint) (since : Nat) (buf : Block)
  | transferred (q : Quint) (since : Nat) (buf : Block)
  /-- The session panicked, or lost its connection. -/
  | ended

/-- A reply that was written, from when on the command had arrived, and until when. -/
structure Reply where
  session : Nat
  q : Quint
  /-- What was read, or written. -/
  buf : Block
  since : Nat
  till : Nat

structure State where
  content : List UInt8
  position : Nat
  sessions : Nat → Control
  moments : List (List UInt8)
  replies : List Reply

inductive Action
  | command (session : Nat) (q : Quint)
  | seek (session : Nat)
  /-- The bytes of a write arrive. -/
  | receive (session : Nat) (buf : Block)
  /-- The file is read or written. -/
  | transfer (session : Nat)
  | reply (session : Nat)
  | hangUp (session : Nat)

def State.setControl (s : State) (session : Nat) (control : Control) : State :=
  { s with sessions := Function.update s.sessions session control }

/-- `block0.Read(buf)` where the file is; `none` is a short read. -/
def readBlock (content : List UInt8) (position : Nat) : Option Block :=
  let buf := readAt position 256 content
  if buf.length = 0 ∨ buf.length = 256 then some (Block.copy buf) else none

/-- The bytes that were read move the file on. -/
def readCount (content : List UInt8) (position : Nat) : Nat := (readAt position 256 content).length

/-- The read or the write of a command, where the file is. -/
def transfer (s : State) (session : Nat) : Option State :=
  match s.sessions session with
  | .sought q since =>
    if q.command = CMD_BLOCK_READ ∨ q.command = CMD_CACHE_READ then
      let s' := { s with position := s.position + readCount s.content s.position }
      match readBlock s.content s.position with
      | some buf => some (s'.setControl session (.transferred q since buf))
      | none => some (s'.setControl session .ended)
    else none
  | .payload q since buf =>
    some ({ s with
      content := writeAt 0 s.position buf.bytes s.content
      position := s.position + 256 }.setControl session (.transferred q since buf))
  | _ => none

def effect (s : State) : Action → Option State
  | .command session q =>
    match s.sessions session with
    | .ready =>
      if q.command = CMD_BLOCK_READ ∨ q.command = CMD_CACHE_READ ∨ q.command = CMD_BLOCK_WRITE then
        some (s.setControl session (.arrived q s.moments.length))
      else none
    | _ => none
  | .seek session =>
    match s.sessions session with
    | .arrived q since =>
      some ({ s with position := 256 * lsnOf q }.setControl session (.sought q since))
    | _ => none
  | .receive session buf =>
    match s.sessions session with
    | .sought q since =>
      if q.command = CMD_BLOCK_WRITE then some (s.setControl session (.payload q since buf)) else none
    | _ => none
  | .transfer session => transfer s session
  | .reply session =>
    match s.sessions session with
    | .transferred q since buf =>
      some ({ s with
        replies := s.replies ++ [Reply.mk session q buf since s.moments.length] }.setControl
          session .ready)
    | _ => none
  | .hangUp session => some (s.setControl session .ended)

/-- A step of a session, and the moment after it. -/
def step (s : State) (action : Action) : Option State :=
  (effect s action).map fun t => { t with moments := t.moments ++ [t.content] }

def start (content : List UInt8) : State where
  content := content
  position := 0
  sessions _ := .ready
  moments := [content]
  replies := []

/-! ### The law -/

/-- At some moment from the arrival on the sector held what was read. -/
def ReadOwn (moments : List (List UInt8)) (q : Quint) (buf : Block) (since : Nat) : Prop :=
  ∃ i content, since ≤ i ∧ moments[i]? = some content ∧ buf = sector content (lsnOf q)

/-- From some moment to the next, from the arrival on, the sector was replaced and no other. -/
def WroteOwn (moments : List (List UInt8)) (q : Quint) (buf : Block) (since : Nat) : Prop :=
  ∃ i before after, since ≤ i ∧ moments[i]? = some before ∧ moments[i + 1]? = some after ∧
    ∀ lsn, sector after lsn = if lsn = lsnOf q then buf else sector before lsn

def Own (moments : List (List UInt8)) (q : Quint) (buf : Block) (since : Nat) : Prop :=
  if q.command = CMD_BLOCK_WRITE then WroteOwn moments q buf since else ReadOwn moments q buf since

/-- What each reply says happened to the command's own sector, between its arrival and the reply. -/
def Faithful (s : State) : Prop :=
  ∀ reply ∈ s.replies, Own (s.moments.take (reply.till + 1)) reply.q reply.buf reply.since

/-- The file is where the session has sought. -/
def InPlace (s : State) : Action → Prop
  | .transfer session =>
    match s.sessions session with
    | .sought q _ | .payload q _ _ => s.position = 256 * lsnOf q
    | _ => True
  | _ => True

instance (s : State) (action : Action) : Decidable (InPlace s action) :=
  match action with
  | .transfer session =>
    match control : s.sessions session with
    | .sought q _ | .payload q _ _ =>
      decidable_of_iff (s.position = 256 * lsnOf q) (by rw [InPlace, control])
    | .ready | .arrived _ _ | .transferred _ _ _ | .ended =>
      .isTrue (by rw [InPlace, control]; trivial)
  | .command _ _ | .seek _ | .receive _ _ | .reply _ | .hangUp _ => .isTrue trivial

/-! ### The invariant -/

/-- The moment the command of a session arrived, if it has one. -/
def Control.since : Control → Option Nat
  | .arrived _ since | .sought _ since | .payload _ since _ | .transferred _ since _ => some since
  | .ready | .ended => none

structure Sound (s : State) : Prop where
  now : ∃ before, s.moments = before ++ [s.content]
  since : ∀ session since, (s.sessions session).since = some since → since < s.moments.length
  payload : ∀ session q since buf, s.sessions session = .payload q since buf →
    q.command = CMD_BLOCK_WRITE
  transferred : ∀ session q since buf, s.sessions session = .transferred q since buf →
    Own s.moments q buf since
  till : ∀ reply ∈ s.replies, reply.till < s.moments.length
  faithful : Faithful s

theorem Own.append {moments : List (List UInt8)} {q : Quint} {buf : Block} {since : Nat}
    (own : Own moments q buf since) (more : List (List UInt8)) :
    Own (moments ++ more) q buf since := by
  have still : ∀ {i : Nat} {content : List UInt8}, moments[i]? = some content →
      (moments ++ more)[i]? = some content := by
    intro i content there
    obtain ⟨inside, -⟩ := List.getElem?_eq_some_iff.mp there
    rw [List.getElem?_append_left inside]
    exact there
  rw [Own] at own ⊢
  split at own
  · rename_i write
    obtain ⟨i, before, after, later, first, second, replaced⟩ := own
    rw [if_pos write]
    exact ⟨i, before, after, later, still first, still second, replaced⟩
  · rename_i read
    obtain ⟨i, content, later, first, same⟩ := own
    rw [if_neg read]
    exact ⟨i, content, later, still first, same⟩

section

variable {s t : State}

/-- One session moves on, and the others stay as they are. -/
theorem Sound.next (sound : Sound s) {session : Nat} {control : Control}
    (controls : t.sessions = Function.update s.sessions session control)
    (moments : t.moments = s.moments) (replies : t.replies = s.replies)
    (since : ∀ since, control.since = some since → since ≤ s.moments.length)
    (payload : ∀ q since buf, control = .payload q since buf → q.command = CMD_BLOCK_WRITE)
    (transferred : ∀ q since buf, control = .transferred q since buf →
      Own (s.moments ++ [t.content]) q buf since) :
    Sound { t with moments := t.moments ++ [t.content] } := by
  have length : (t.moments ++ [t.content]).length = s.moments.length + 1 := by
    rw [List.length_append, moments, List.length_singleton]
  refine ⟨⟨t.moments, rfl⟩, ?_, ?_, ?_, ?_, ?_⟩
  · intro other since' has
    dsimp only at has ⊢
    rw [length]
    rw [controls] at has
    by_cases here : other = session
    · rw [here, Function.update_self] at has
      exact Nat.lt_succ_of_le (since since' has)
    · rw [Function.update_of_ne here] at has
      exact Nat.lt_succ_of_lt (sound.since other since' has)
  · intro other q since' buf has
    dsimp only at has
    rw [controls] at has
    by_cases here : other = session
    · rw [here, Function.update_self] at has
      exact payload q since' buf has
    · rw [Function.update_of_ne here] at has
      exact sound.payload other q since' buf has
  · intro other q since' buf has
    dsimp only at has ⊢
    rw [controls] at has
    rw [moments]
    by_cases here : other = session
    · rw [here, Function.update_self] at has
      exact transferred q since' buf has
    · rw [Function.update_of_ne here] at has
      exact (sound.transferred other q since' buf has).append _
  · intro reply member
    dsimp only at member ⊢
    rw [replies] at member
    rw [length]
    exact Nat.lt_succ_of_lt (sound.till reply member)
  · intro reply member
    dsimp only at member ⊢
    rw [replies] at member
    rw [moments, List.take_append_of_le_length (sound.till reply member)]
    exact sound.faithful reply member

theorem Sound.last (sound : Sound s) : s.moments[s.moments.length - 1]? = some s.content ∧
    0 < s.moments.length := by
  obtain ⟨before, now⟩ := sound.now
  rw [now, List.length_append, List.length_singleton, Nat.add_sub_cancel]
  exact ⟨List.getElem?_concat_length, Nat.succ_pos _⟩

theorem eq_sector_of_readBlock {content : List UInt8} {position lsn : Nat} {buf : Block}
    (inPlace : position = 256 * lsn) (read : readBlock content position = some buf) :
    buf = sector content lsn := by
  rw [inPlace] at read
  exact readSector_eq_some read

/-- What is read where the session has sought is its sector, and what is written there its own. -/
theorem Sound.transfer (sound : Sound s) {session : Nat} (inPlace : InPlace s (.transfer session))
    (moved : transfer s session = some t) : Sound { t with moments := t.moments ++ [t.content] } := by
  obtain ⟨last, nonempty⟩ := sound.last
  rw [InPlace] at inPlace
  rw [Shared.transfer] at moved
  cases control : s.sessions session with
  | sought q since =>
    rw [control] at moved inPlace
    dsimp only at moved inPlace
    have arrived : since < s.moments.length := sound.since session since (by rw [control]; rfl)
    split at moved
    · rename_i reads
      have notWrite : q.command ≠ CMD_BLOCK_WRITE := by
        rcases reads with read | read
        · rw [read]
          decide
        · rw [read]
          decide
      split at moved
      · rename_i buf read
        obtain rfl := Option.some.inj moved
        refine sound.next rfl rfl rfl ?_ nofun ?_
        · rintro since' ⟨⟩
          exact Nat.le_of_lt arrived
        · rintro q' since' buf' ⟨⟩
          refine Own.append ?_ _
          rw [Own, if_neg notWrite]
          exact ⟨s.moments.length - 1, s.content, by omega, last,
            eq_sector_of_readBlock inPlace read⟩
      · obtain rfl := Option.some.inj moved
        exact sound.next rfl rfl rfl nofun nofun nofun
    · cases moved
  | payload q since buf =>
    rw [control] at moved inPlace
    dsimp only at moved inPlace
    have arrived : since < s.moments.length := sound.since session since (by rw [control]; rfl)
    obtain rfl := Option.some.inj moved
    refine sound.next rfl rfl rfl ?_ nofun ?_
    · rintro since' ⟨⟩
      exact Nat.le_of_lt arrived
    · rintro q' since' buf' ⟨⟩
      rw [Own, if_pos (sound.payload session q since buf control)]
      refine ⟨s.moments.length - 1, s.content, writeAt 0 s.position buf.bytes s.content, by omega,
        ?_, ?_, fun lsn => ?_⟩
      · rw [List.getElem?_append_left (by omega)]
        exact last
      · rw [Nat.sub_add_cancel nonempty]
        exact List.getElem?_concat_length
      · show sector (writeAt 0 s.position buf.bytes s.content) lsn = _
        rw [inPlace]
        exact sector_writeSector s.content (lsnOf q) buf lsn
  | ready => rw [control] at moved; cases moved
  | arrived => rw [control] at moved; cases moved
  | transferred => rw [control] at moved; cases moved
  | ended => rw [control] at moved; cases moved

theorem Sound.reply (sound : Sound s) {session : Nat} {q : Quint} {since : Nat} {buf : Block}
    (control : s.sessions session = .transferred q since buf)
    (sessions : t.sessions = Function.update s.sessions session .ready)
    (content : t.content = s.content) (moments : t.moments = s.moments)
    (replies : t.replies = s.replies ++ [⟨session, q, buf, since, s.moments.length⟩]) :
    Sound { t with moments := t.moments ++ [t.content] } := by
  have quiet := @Sound.next s { s with sessions := t.sessions } sound session .ready sessions rfl rfl
    nofun nofun nofun
  dsimp only at quiet
  have whole : (s.moments ++ [s.content]).take (s.moments.length + 1) = s.moments ++ [s.content] := by
    refine List.take_of_length_le ?_
    rw [List.length_append, List.length_singleton]
  rw [moments, content]
  refine { quiet with till := ?_, faithful := ?_ }
  · intro reply member
    dsimp only at member
    rw [replies, List.mem_append, List.mem_singleton] at member
    rcases member with before | rfl
    · exact quiet.till reply before
    · dsimp only
      rw [List.length_append, List.length_singleton]
      exact Nat.lt_succ_self _
  · intro reply member
    dsimp only at member
    rw [replies, List.mem_append, List.mem_singleton] at member
    rcases member with before | rfl
    · exact quiet.faithful reply before
    · dsimp only
      rw [whole]
      exact (sound.transferred session q since buf control).append _

theorem Sound.step (sound : Sound s) {action : Action} (inPlace : InPlace s action)
    (stepped : step s action = some t) : Sound t := by
  obtain ⟨u, happened, rfl⟩ := Option.map_eq_some_iff.mp stepped
  cases action with
  | command session q =>
    rw [effect] at happened
    split at happened
    · split at happened
      · obtain rfl := Option.some.inj happened
        refine sound.next rfl rfl rfl ?_ nofun nofun
        rintro since ⟨⟩
        exact le_rfl
      · cases happened
    · cases happened
  | seek session =>
    rw [effect] at happened
    split at happened
    · rename_i q since control
      obtain rfl := Option.some.inj happened
      refine sound.next rfl rfl rfl ?_ nofun nofun
      rintro since' ⟨⟩
      exact Nat.le_of_lt (sound.since session since (by rw [control]; rfl))
    · cases happened
  | receive session buf =>
    rw [effect] at happened
    split at happened
    · rename_i q since control
      split at happened
      · rename_i write
        obtain rfl := Option.some.inj happened
        refine sound.next rfl rfl rfl ?_ ?_ nofun
        · rintro since' ⟨⟩
          exact Nat.le_of_lt (sound.since session since (by rw [control]; rfl))
        · rintro q' since' buf' ⟨⟩
          exact write
      · cases happened
    · cases happened
  | transfer session => exact sound.transfer inPlace happened
  | reply session =>
    rw [effect] at happened
    split at happened
    · rename_i q since buf control
      obtain rfl := Option.some.inj happened
      exact sound.reply control rfl rfl rfl rfl
    · cases happened
  | hangUp session =>
    obtain rfl := Option.some.inj happened
    exact sound.next rfl rfl rfl nofun nofun nofun

theorem sound_start (content : List UInt8) : Sound (start content) where
  now := ⟨[], rfl⟩
  since := nofun
  payload := nofun
  transferred := nofun
  till := nofun
  faithful := nofun

/-- If every session reads and writes where it has sought, each reply tells of its own sector. -/
theorem faithful_of_inPlace {content : List UInt8} {actions : List Action}
    (meets : Meets step InPlace (start content) actions)
    (reached : run step (start content) actions = some s) : Faithful s :=
  (invariant_of_run Sound (fun _ _ _ sound inPlace stepped => sound.step inPlace stepped)
    (sound_start content) meets reached).faithful

end

/-- One session reads sector 0, and then another writes sector 1. -/
theorem faithful_readAndWrite : ∃ s,
    run step (start []) [.command 0 (newQuint CMD_BLOCK_READ 0 0),
      .command 1 (newQuint CMD_BLOCK_WRITE 0 1), .seek 0, .transfer 0, .reply 0, .seek 1,
      .receive 1 (Block.copy [7]), .transfer 1, .reply 1] = some s ∧ Faithful s := by
  have meets : Meets step InPlace (start []) [.command 0 (newQuint CMD_BLOCK_READ 0 0),
      .command 1 (newQuint CMD_BLOCK_WRITE 0 1), .seek 0, .transfer 0, .reply 0, .seek 1,
      .receive 1 (Block.copy [7]), .transfer 1, .reply 1] := by decide +kernel
  exact ⟨_, rfl, faithful_of_inPlace meets rfl⟩

/-- One session seeks sector 0 to write it, and before it does another seeks sector 1. -/
theorem not_faithful_seekBetween : ¬∀ content actions s,
    run step (start content) actions = some s → Faithful s := by
  intro law
  have run : ∃ s, run step (start []) [.command 0 (newQuint CMD_BLOCK_WRITE 0 0),
      .command 1 (newQuint CMD_BLOCK_READ 0 1), .seek 0, .seek 1, .receive 0 (Block.copy [7]),
      .transfer 0, .reply 0] = some s ∧ (∀ moment ∈ s.moments, sector moment 0 ≠ Block.copy [7]) ∧
        ⟨0, newQuint CMD_BLOCK_WRITE 0 0, Block.copy [7], 1, 7⟩ ∈ s.replies :=
    ⟨_, rfl, by decide +kernel, List.mem_singleton_self _⟩
  obtain ⟨s, reached, never, replied⟩ := run
  have own := law _ _ s reached _ replied
  have write : (newQuint CMD_BLOCK_WRITE 0 0).command = CMD_BLOCK_WRITE := rfl
  rw [Own, if_pos write] at own
  obtain ⟨i, before, after, -, -, second, replaced⟩ := own
  have member : after ∈ s.moments := List.mem_of_mem_take (List.mem_of_getElem? second)
  exact never after member ((replaced 0).trans (if_pos rfl))

end Frobio.Waiter.Shared
