/-
This file is about any number of clients and one daemon: is every request read once and
every reply given to the client whose request was read last, and does no assertion fail?

The pointers of the daemon and of the client that waits for it keep them together, and as
long as no assertion fails that is enough. But nothing keeps a second client from entering
the daemon while it is paired with the first, and then `SetPeer` fails.
-/

import Frobio.Fuse.Module

namespace Frobio.Fuse

open Run

/-! ### The law -/

/-- The call of a client that has entered the daemon, and has no reply. -/
def Control.awaits : Control → Option Call
  | .switching call _ | .pausing call none => some call
  | _ => none

/-- The client and the call of a reply. -/
def key (reply : Path × Nat × Reply) : Path × Nat := (reply.1, reply.2.1)

/-- The daemon is paired with every client that awaits it, so with one at most; each reply is for
the client whose request was read last; no request is read twice; every reply is returned to its
client, or waits for it there, and none is returned twice or to another. -/
structure Safe (dae : Path) (s : State) : Prop where
  paired : ∀ cli call, (s.control cli).awaits = some call → s.peer dae = some cli
  answered : s.reads = s.replies.map key ∨
    ∃ cli call, s.control cli = .pausing call none ∧
      s.reads = s.replies.map key ++ [(cli, call.id)]
  readOnce : (s.reads.map Prod.snd).Nodup
  delivered : ∀ reply ∈ s.replies, reply ∈ s.returns ∨
    ∃ op, s.control reply.1 = .pausing ⟨op, reply.2.1⟩ (some reply.2.2)
  returned : ∀ reply ∈ s.returns, reply ∈ s.replies
  returnedOnce : (s.returns.map key).Nodup

/-- No client enters the daemon while it is paired, or after it is gone, and none calls an operation
that names a file; the daemon comes to its read before a client has waited for 50 ticks, reads with
room for the request, and writes only when it has read. -/
def Fits (dae : Path) (s : State) : Action → Prop
  | .openPath cli name _ => s.control cli = .fresh → s.name = some name → s.peer dae = none
  | .operate cli op _ =>
    (s.control cli = .idle → op.plain = true → s.isDaemon = true ∧ s.peer dae = none) ∧
      ¬(s.control cli = .fresh ∧ op.byName = true)
  | .close cli _ =>
    s.control cli = .idle → s.linkCount cli - 1 = 0 → s.isDaemon = true ∧ s.peer dae = none
  | .tick cli => ∀ call timeout, s.control cli = .switching call timeout → 1 < timeout
  | .resumeDaemon => ∀ size cli call, s.daemon = .reading size true → s.peer dae = some cli →
      (s.control cli).call = some call → call.op.wantsRoom = true → sizeofRequest < size
  | .writeDaemon _ => s.daemon = .user →
      ∃ cli call, s.peer dae = some cli ∧ s.control cli = .pausing call none
  | _ => True

/-! ### The invariant -/

/-- Whose turn it is. -/
inductive Turn (s : State) : Prop
  /-- The requests that were read have their replies. A client that waits has not been read, and if
  it sleeps, the daemon is about to read. -/
  | answered (same : s.reads = s.replies.map key)
    (later : ∀ cli call, (s.control cli).awaits = some call → ∀ read ∈ s.reads, read.2 < call.id)
    (told : (∃ cli call, s.control cli = .pausing call none) ↔
      ∃ size, s.daemon = .reading size true)
  /-- The request of a client that sleeps was read. -/
  | serving (cli : Path) (call : Call) (control : s.control cli = .pausing call none)
    (last : s.reads = s.replies.map key ++ [(cli, call.id)])
    (untold : ∀ size, s.daemon ≠ .reading size true)

structure Sound (dae : Path) (s : State) : Prop where
  outside : s.control dae = .closed
  unlinked : ∀ {cli}, s.control cli = .fresh → s.peer cli = none
  linked : ∀ {cli}, s.control cli = .idle ∨ (s.control cli).call ≠ none → s.peer cli = some dae
  entered : ∀ {cli call}, (s.control cli).awaits = some call →
    s.peer dae = some cli ∧ call.id + 1 = s.calls
  unanswered : ∀ {cli call reply}, s.control cli = .pausing call (some reply) →
    s.peer dae ≠ some cli
  asleep : ∀ {cli call}, s.control cli = .pausing call none → s.paused cli = true
  resting : s.paused dae = true → ∃ size awakened, s.daemon = .reading size awakened
  turn : Turn s
  increasing : (s.reads.map Prod.snd).Pairwise (· < ·)
  called : ∀ read ∈ s.reads, read.2 < s.calls
  held : ∀ {cli call reply}, s.control cli = .pausing call (some reply) →
    (cli, call.id, reply) ∈ s.replies ∧ (cli, call.id) ∉ s.returns.map key
  delivered : ∀ reply ∈ s.replies, reply ∈ s.returns ∨
    ∃ op, s.control reply.1 = .pausing ⟨op, reply.2.1⟩ (some reply.2.2)
  returned : ∀ reply ∈ s.returns, reply ∈ s.replies
  once : (s.returns.map key).Nodup

theorem sound_start (dae : Path) (name : Text) : Sound dae (start name) where
  outside := rfl
  unlinked := nofun
  linked wrong := wrong.elim nofun fun wrong => absurd rfl wrong
  entered := nofun
  unanswered := nofun
  asleep := nofun
  resting := nofun
  turn := .answered rfl nofun (iff_of_false nofun nofun)
  increasing := List.Pairwise.nil
  called := nofun
  held := nofun
  delivered := nofun
  returned := nofun
  once := List.nodup_nil

section

variable {dae cli : Path} {s t : State}

theorem Sound.safe (sound : Sound dae s) : Safe dae s where
  paired _ _ awaits := (sound.entered awaits).1
  answered := by
    cases sound.turn with
    | answered same => exact .inl same
    | serving cli call control last => exact .inr ⟨cli, call, control, last⟩
  readOnce := sound.increasing.imp fun less => Nat.ne_of_lt less
  delivered := sound.delivered
  returned := sound.returned
  returnedOnce := sound.once

theorem Sound.ne_daemon (sound : Sound dae s) (used : s.control cli ≠ .closed) : cli ≠ dae := by
  rintro rfl
  exact used sound.outside

/-- Two clients that wait are one. -/
theorem Sound.alone (sound : Sound dae s) {other : Path} {call call' : Call}
    (one : (s.control cli).awaits = some call) (two : (s.control other).awaits = some call') :
    other = cli :=
  Option.some.inj ((sound.entered two).1.symm.trans (sound.entered one).1)

/-- The daemon is awakened for a client that sleeps. -/
theorem Sound.sleeper_of_awakened (sound : Sound dae s) {size : Nat}
    (awakened : s.daemon = .reading size true) : ∃ cli call, s.control cli = .pausing call none := by
  cases sound.turn with
  | answered read later told => exact told.mpr ⟨size, awakened⟩
  | serving cli call control last untold => exact absurd awakened (untold size)

/-! ### Clients -/

/-- Another client does not notice. -/
structure Frame (dae cli : Path) (s t : State) : Prop where
  control : ∀ {other}, other ≠ cli → t.control other = s.control other
  peer : ∀ {other}, other ≠ cli → other ≠ dae → t.peer other = s.peer other
  paused : ∀ {other}, other ≠ cli → t.paused other = s.paused other
  reads : t.reads = s.reads
  replies : t.replies = s.replies

theorem Control.call_of_awaits {control : Control} {call : Call}
    (awaits : control.awaits = some call) : control.call = some call := by
  cases control with
  | switching => exact awaits
  | pausing call' reply =>
    cases reply with
    | none => exact awaits
    | some => cases awaits
  | closed | fresh | idle => cases awaits

/-- A client that is in no call before and after a step. -/
theorem Frame.control_eq (frame : Frame dae cli s t) (quiet : (s.control cli).call = none)
    (quiet' : (t.control cli).call = none) {other : Path}
    (inCall : (t.control other).call ≠ none ∨ (s.control other).call ≠ none) :
    t.control other = s.control other := by
  by_cases same : other = cli
  · subst same
    exact inCall.elim (absurd quiet') (absurd quiet)
  · exact frame.control same

theorem Sound.settle (sound : Sound dae s) (apart : cli ≠ dae) (frame : Frame dae cli s t)
    (quiet : (s.control cli).call = none) (quiet' : (t.control cli).call = none)
    (unlinked : t.control cli = .fresh → t.peer cli = none)
    (linked : t.control cli = .idle → t.peer cli = some dae)
    (paired : t.peer dae = s.peer dae ∨ s.peer dae = none ∧ t.peer dae = some cli)
    (daemon : t.daemon = s.daemon) (calls : t.calls = s.calls) (returns : t.returns = s.returns) :
    Sound dae t := by
  have same : ∀ {other call reply}, t.control other = .pausing call reply ↔
      s.control other = .pausing call reply := by
    intro other call reply
    constructor
    · intro pausing
      rw [← frame.control_eq quiet quiet' (.inl (by rw [pausing]; exact Option.some_ne_none call))]
      exact pausing
    · intro pausing
      rw [frame.control_eq quiet quiet' (.inr (by rw [pausing]; exact Option.some_ne_none call))]
      exact pausing
  have awaits : ∀ {other call}, (t.control other).awaits = some call →
      (s.control other).awaits = some call := by
    intro other call awaits
    have inCall : (t.control other).call ≠ none := by
      rw [Control.call_of_awaits awaits]
      exact Option.some_ne_none call
    rw [← frame.control_eq quiet quiet' (.inl inCall)]
    exact awaits
  refine ⟨?_, ?_, ?_, ?_, ?_, ?_, ?_, ?_, ?_, ?_, ?_, ?_, ?_, ?_⟩
  · rw [frame.control apart.symm]
    exact sound.outside
  · intro other fresh
    by_cases here : other = cli
    · subst here
      exact unlinked fresh
    · have before := fresh
      rw [frame.control here] at before
      rw [frame.peer here (sound.ne_daemon (by rw [before]; exact nofun))]
      exact sound.unlinked before
  · intro other inside
    by_cases here : other = cli
    · subst here
      exact linked (inside.resolve_right (not_not_intro quiet'))
    · rw [frame.control here] at inside
      have used : s.control other ≠ .closed := by
        intro closed
        rw [closed] at inside
        exact inside.elim nofun (absurd rfl)
      rw [frame.peer here (sound.ne_daemon used)]
      exact sound.linked inside
  · intro other call waits
    have before := sound.entered (awaits waits)
    rw [calls]
    refine ⟨?_, before.2⟩
    rcases paired with kept | ⟨free, -⟩
    · rw [kept]
      exact before.1
    · exact nomatch free.symm.trans before.1
  · intro other call reply pausing
    rw [same] at pausing
    rcases paired with kept | ⟨-, now⟩
    · rw [kept]
      exact sound.unanswered pausing
    · rw [now]
      intro here
      cases here
      rw [pausing] at quiet
      cases quiet
  · intro other call pausing
    rw [same] at pausing
    rw [frame.paused]
    · exact sound.asleep pausing
    · rintro rfl
      rw [pausing] at quiet
      cases quiet
  · rw [frame.paused apart.symm, daemon]
    exact sound.resting
  · cases sound.turn with
    | answered read later told =>
      refine .answered ?_ ?_ ?_
      · rw [frame.reads, frame.replies]
        exact read
      · rw [frame.reads]
        exact fun other call waits => later other call (awaits waits)
      · simp only [same, daemon]
        exact told
    | serving other call control last untold =>
      refine .serving other call (same.mpr control) ?_ ?_
      · rw [frame.reads, frame.replies]
        exact last
      · rw [daemon]
        exact untold
  · rw [frame.reads]
    exact sound.increasing
  · rw [frame.reads, calls]
    exact sound.called
  · intro other call reply pausing
    rw [same] at pausing
    rw [frame.replies, returns]
    exact sound.held pausing
  · rw [frame.replies, returns]
    simp only [same]
    exact sound.delivered
  · rw [frame.replies, returns]
    exact sound.returned
  · rw [returns]
    exact sound.once

/-- While the daemon is free, no client waits. -/
theorem Sound.not_awaits (sound : Sound dae s) (free : s.peer dae = none) {other : Path}
    {call : Call} : (s.control other).awaits ≠ some call :=
  fun waits => nomatch free.symm.trans (sound.entered waits).1

/-- A client enters the daemon. -/
theorem Sound.enter (sound : Sound dae s) (apart : cli ≠ dae) (frame : Frame dae cli s t)
    (quiet : (s.control cli).call = none) (free : s.peer dae = none) {op : Op} {timeout : Nat}
    (switching : t.control cli = .switching ⟨op, s.calls⟩ timeout)
    (linked : t.peer cli = some dae) (paired : t.peer dae = some cli)
    (daemon : t.daemon = s.daemon) (calls : t.calls = s.calls + 1) (returns : t.returns = s.returns) :
    Sound dae t := by
  have nobody : ∀ {other call}, s.control other ≠ .pausing call none := by
    intro other call pausing
    have waits : (s.control other).awaits = some call := by
      rw [pausing]
      rfl
    exact sound.not_awaits free waits
  have same : ∀ {other call reply}, t.control other = .pausing call reply ↔
      s.control other = .pausing call reply := by
    intro other call reply
    by_cases here : other = cli
    · subst here
      refine iff_of_false (by rw [switching]; exact nofun) fun pausing => ?_
      rw [pausing] at quiet
      cases quiet
    · rw [frame.control here]
  have only : ∀ {other call}, (t.control other).awaits = some call →
      other = cli ∧ call.id = s.calls := by
    intro other call waits
    by_cases here : other = cli
    · subst here
      rw [switching] at waits
      cases waits
      exact ⟨rfl, rfl⟩
    · rw [frame.control here] at waits
      exact absurd waits (sound.not_awaits free)
  refine ⟨?_, ?_, ?_, ?_, ?_, ?_, ?_, ?_, ?_, ?_, ?_, ?_, ?_, ?_⟩
  · rw [frame.control apart.symm]
    exact sound.outside
  · intro other fresh
    have here : other ≠ cli := by
      rintro rfl
      cases switching.symm.trans fresh
    rw [frame.control here] at fresh
    rw [frame.peer here (sound.ne_daemon (by rw [fresh]; exact nofun))]
    exact sound.unlinked fresh
  · intro other inside
    by_cases here : other = cli
    · subst here
      exact linked
    · rw [frame.control here] at inside
      have used : s.control other ≠ .closed := by
        intro closed
        rw [closed] at inside
        exact inside.elim nofun (absurd rfl)
      rw [frame.peer here (sound.ne_daemon used)]
      exact sound.linked inside
  · intro other call waits
    obtain ⟨rfl, id⟩ := only waits
    rw [calls, id]
    exact ⟨paired, rfl⟩
  · intro other call reply pausing
    rw [paired]
    intro here
    cases here
    cases switching.symm.trans pausing
  · intro other call pausing
    rw [same] at pausing
    exact absurd pausing nobody
  · rw [frame.paused apart.symm, daemon]
    exact sound.resting
  · cases sound.turn with
    | answered read later told =>
      refine .answered ?_ ?_ ?_
      · rw [frame.reads, frame.replies]
        exact read
      · intro other call waits before member
        rw [(only waits).2]
        rw [frame.reads] at member
        exact sound.called before member
      · simp only [same, daemon]
        exact told
    | serving other call control => exact absurd control nobody
  · rw [frame.reads]
    exact sound.increasing
  · rw [frame.reads, calls]
    exact fun read member => Nat.lt_succ_of_lt (sound.called read member)
  · intro other call reply pausing
    rw [same] at pausing
    rw [frame.replies, returns]
    exact sound.held pausing
  · rw [frame.replies, returns]
    simp only [same]
    exact sound.delivered
  · rw [frame.replies, returns]
    exact sound.returned
  · rw [returns]
    exact sound.once

/-- A tick is over. -/
theorem Sound.tick (sound : Sound dae s) {call : Call} {timeout timeout' : Nat}
    (switching : s.control cli = .switching call timeout) :
    Sound dae (s.setControl cli (.switching call timeout')) := by
  have there : ∀ other control, (∀ timeout, control ≠ .switching call timeout) →
      ((s.setControl cli (.switching call timeout')).control other = control ↔
        s.control other = control) := by
    intro other control apart
    by_cases here : other = cli
    · subst here
      rw [control_setControl, switching]
      exact iff_of_false (apart _).symm (apart _).symm
    · rw [control_setControl_of_ne _ _ here]
  have awaits : ∀ other, ((s.setControl cli (.switching call timeout')).control other).awaits =
      (s.control other).awaits := by
    intro other
    by_cases here : other = cli
    · subst here
      rw [control_setControl, switching]
      rfl
    · rw [control_setControl_of_ne _ _ here]
  have inCall : ∀ other, ((s.setControl cli (.switching call timeout')).control other).call =
      (s.control other).call := by
    intro other
    by_cases here : other = cli
    · subst here
      rw [control_setControl, switching]
      rfl
    · rw [control_setControl_of_ne _ _ here]
  have closed := fun {other} => there other .closed nofun
  have fresh := fun {other} => there other .fresh nofun
  have idle := fun {other} => there other .idle nofun
  have same := fun {other call' reply} => there other (.pausing call' reply) nofun
  refine ⟨closed.mpr sound.outside, fun before => sound.unlinked (fresh.mp before),
    ?_, ?_, ?_, ?_, sound.resting, ?_, sound.increasing, sound.called, ?_, ?_, sound.returned,
    sound.once⟩
  · intro other inside
    rw [idle, inCall] at inside
    exact sound.linked inside
  · intro other call waits
    rw [awaits] at waits
    exact sound.entered waits
  · exact fun pausing => sound.unanswered (same.mp pausing)
  · exact fun pausing => sound.asleep (same.mp pausing)
  · cases sound.turn with
    | answered read later told =>
      refine .answered read (fun other call waits => later other call ?_) ?_
      · rw [← awaits]
        exact waits
      · simp only [same]
        exact told
    | serving other call control last untold =>
      exact .serving other call (same.mpr control) last untold
  · exact fun pausing => sound.held (same.mp pausing)
  · intro reply member
    refine (sound.delivered reply member).imp id ?_
    rintro ⟨op, control⟩
    exact ⟨op, same.mpr control⟩

/-- A client awakens the daemon, and sleeps. -/
theorem Sound.awaken (sound : Sound dae s) {call : Call} {timeout : Nat}
    (switching : s.control cli = .switching call timeout) (ready : s.paused dae = true) :
    Sound dae (awakenAndPause s cli call) := by
  have entered : (s.control cli).awaits = some call := by
    rw [switching]
    rfl
  have away : cli ≠ dae := sound.ne_daemon (by rw [switching]; simp)
  have nobody : ∀ {other call'}, s.control other ≠ .pausing call' none := by
    intro other call' pausing
    have waits : (s.control other).awaits = some call' := by
      rw [pausing]
      rfl
    obtain rfl := sound.alone entered waits
    cases switching.symm.trans pausing
  obtain ⟨size, awakened, reading⟩ := sound.resting ready
  have result : awakenAndPause s cli call = ({ s with
      paused := Function.update s.paused cli true
      daemon := .reading size true } : State).setControl cli (.pausing call none) := by
    rw [awakenAndPause, awakenDaemon, reading]
  generalize awakenAndPause s cli call = t at result
  have control : t.control cli = .pausing call none := by
    rw [result]
    exact control_setControl ..
  have elsewhere : ∀ {other}, other ≠ cli → t.control other = s.control other := by
    intro other apart
    rw [result]
    exact control_setControl_of_ne _ _ apart
  have there : ∀ other before, (∀ timeout, before ≠ .switching call timeout) →
      before ≠ .pausing call none → (t.control other = before ↔ s.control other = before) := by
    intro other before apart apart'
    by_cases here : other = cli
    · subst here
      rw [control, switching]
      exact iff_of_false apart'.symm (apart _).symm
    · rw [elsewhere here]
  have closed := fun {other} => there other .closed (by simp) (by simp)
  have fresh := fun {other} => there other .fresh (by simp) (by simp)
  have idle := fun {other} => there other .idle (by simp) (by simp)
  have same := fun {other call' reply} =>
    there other (.pausing call' (some reply)) (by simp) (by simp)
  have awaits : ∀ other, (t.control other).awaits = (s.control other).awaits := by
    intro other
    by_cases here : other = cli
    · subst here
      rw [control, switching]
      rfl
    · rw [elsewhere here]
  have inCall : ∀ other, (t.control other).call = (s.control other).call := by
    intro other
    by_cases here : other = cli
    · subst here
      rw [control, switching]
      rfl
    · rw [elsewhere here]
  have sleeps : ∀ {other call'}, t.control other = .pausing call' none → other = cli := by
    intro other call' pausing
    by_contra apart
    rw [elsewhere apart] at pausing
    exact nobody pausing
  have peer : t.peer = s.peer := by rw [result]; rfl
  have paused : t.paused = Function.update s.paused cli true := by rw [result]; rfl
  have daemon : t.daemon = .reading size true := by rw [result]; rfl
  have calls : t.calls = s.calls := by rw [result]; rfl
  have reads : t.reads = s.reads := by rw [result]; rfl
  have replies : t.replies = s.replies := by rw [result]; rfl
  have returns : t.returns = s.returns := by rw [result]; rfl
  refine ⟨closed.mpr sound.outside, ?_, ?_, ?_, ?_, ?_, fun _ => ⟨size, true, daemon⟩, ?_,
    reads ▸ sound.increasing, ?_, ?_, ?_, ?_, returns ▸ sound.once⟩
  · intro other before
    rw [peer]
    exact sound.unlinked (fresh.mp before)
  · intro other inside
    rw [idle, inCall] at inside
    rw [peer]
    exact sound.linked inside
  · intro other call' waits
    rw [awaits] at waits
    rw [peer, calls]
    exact sound.entered waits
  · intro other call' reply pausing
    rw [peer]
    exact sound.unanswered (same.mp pausing)
  · intro other call' pausing
    rw [paused, sleeps pausing]
    exact Function.update_self _ _ _
  · cases sound.turn with
    | answered read later told =>
      refine .answered ?_ ?_ (iff_of_true ⟨cli, call, control⟩ ⟨size, daemon⟩)
      · rw [reads, replies]
        exact read
      · intro other call' waits
        rw [awaits] at waits
        rw [reads]
        exact later other call' waits
    | serving other call' pausing => exact absurd pausing nobody
  · rw [reads, calls]
    exact sound.called
  · intro other call' reply pausing
    rw [replies, returns]
    exact sound.held (same.mp pausing)
  · rw [replies, returns]
    simp only [same]
    exact sound.delivered
  · rw [replies, returns]
    exact sound.returned

/-- A client returns with the reply. -/
theorem Sound.finish (sound : Sound dae s) (frame : Frame dae cli s t) {call : Call} {reply : Reply}
    (pausing : s.control cli = .pausing call (some reply)) (quiet : (t.control cli).call = none)
    (used : t.control cli ≠ .fresh) (linked : t.control cli = .idle → t.peer cli = some dae)
    (paired : t.peer dae = s.peer dae) (daemon : t.daemon = s.daemon) (calls : t.calls = s.calls)
    (returns : t.returns = s.returns ++ [(cli, call.id, reply)]) : Sound dae t := by
  have apart : cli ≠ dae := sound.ne_daemon (by rw [pausing]; exact nofun)
  have elsewhere : ∀ {other}, (t.control other).call ≠ none →
      other ≠ cli ∧ t.control other = s.control other := by
    intro other inCall
    have away : other ≠ cli := by
      rintro rfl
      exact inCall quiet
    exact ⟨away, frame.control away⟩
  have sleeping : ∀ {other call' reply'}, t.control other = .pausing call' reply' ↔
      other ≠ cli ∧ s.control other = .pausing call' reply' := by
    intro other call' reply'
    constructor
    · intro control
      have away := elsewhere (by rw [control]; exact Option.some_ne_none call')
      rw [← away.2]
      exact ⟨away.1, control⟩
    · rintro ⟨away, control⟩
      rw [frame.control away]
      exact control
  have waiting : ∀ {other call'}, (t.control other).awaits = some call' →
      (s.control other).awaits = some call' := by
    intro other call' waits
    have inCall : (t.control other).call ≠ none := by
      rw [Control.call_of_awaits waits]
      exact Option.some_ne_none call'
    rw [← (elsewhere inCall).2]
    exact waits
  have waiter : ∀ {other call'}, s.control other = .pausing call' none → other ≠ cli := by
    rintro other call' control rfl
    cases pausing.symm.trans control
  refine ⟨?_, ?_, ?_, ?_, ?_, ?_, ?_, ?_, frame.reads ▸ sound.increasing, ?_, ?_, ?_, ?_, ?_⟩
  · rw [frame.control apart.symm]
    exact sound.outside
  · intro other fresh
    have away : other ≠ cli := by
      rintro rfl
      exact used fresh
    rw [frame.control away] at fresh
    rw [frame.peer away (sound.ne_daemon (by rw [fresh]; exact nofun))]
    exact sound.unlinked fresh
  · intro other inside
    by_cases here : other = cli
    · subst here
      exact linked (inside.resolve_right (not_not_intro quiet))
    · rw [frame.control here] at inside
      have open' : s.control other ≠ .closed := by
        intro closed
        rw [closed] at inside
        exact inside.elim nofun (absurd rfl)
      rw [frame.peer here (sound.ne_daemon open')]
      exact sound.linked inside
  · intro other call' waits
    rw [paired, calls]
    exact sound.entered (waiting waits)
  · intro other call' reply' control
    rw [paired]
    exact sound.unanswered (sleeping.mp control).2
  · intro other call' control
    obtain ⟨away, before⟩ := sleeping.mp control
    rw [frame.paused away]
    exact sound.asleep before
  · rw [frame.paused apart.symm, daemon]
    exact sound.resting
  · cases sound.turn with
    | answered read later told =>
      refine .answered ?_ ?_ ?_
      · rw [frame.reads, frame.replies]
        exact read
      · intro other call' waits
        rw [frame.reads]
        exact later other call' (waiting waits)
      · rw [daemon, ← told]
        constructor
        · rintro ⟨other, call', control⟩
          exact ⟨other, call', (sleeping.mp control).2⟩
        · rintro ⟨other, call', control⟩
          exact ⟨other, call', sleeping.mpr ⟨waiter control, control⟩⟩
    | serving other call' control last untold =>
      refine .serving other call' (sleeping.mpr ⟨waiter control, control⟩) ?_ ?_
      · rw [frame.reads, frame.replies]
        exact last
      · rw [daemon]
        exact untold
  · rw [frame.reads, calls]
    exact sound.called
  · intro other call' reply' control
    obtain ⟨away, before⟩ := sleeping.mp control
    rw [frame.replies, returns]
    refine ⟨(sound.held before).1, ?_⟩
    rw [List.map_append, List.mem_append, not_or]
    refine ⟨(sound.held before).2, ?_⟩
    rw [List.map_singleton, List.mem_singleton]
    exact fun same => away (Prod.mk.inj same).1
  · intro entry member
    rw [frame.replies] at member
    rw [returns, List.mem_append, List.mem_singleton]
    rcases sound.delivered entry member with done | ⟨op, control⟩
    · exact .inl (.inl done)
    · by_cases here : entry.1 = cli
      · refine .inl (.inr ?_)
        rw [here] at control
        cases pausing.symm.trans control
        rw [← here]
      · exact .inr ⟨op, sleeping.mpr ⟨here, control⟩⟩
  · intro entry member
    rw [returns, List.mem_append, List.mem_singleton] at member
    rw [frame.replies]
    rcases member with before | rfl
    · exact sound.returned entry before
    · exact (sound.held pausing).1
  · rw [returns, List.map_append, List.nodup_append]
    refine ⟨sound.once, List.nodup_singleton _, ?_⟩
    intro one member other single same
    rw [List.map_singleton, List.mem_singleton] at single
    subst single
    rw [same] at member
    exact (sound.held pausing).2 member

/-! ### The daemon -/

theorem Sound.readDaemon (sound : Sound dae s) (user : s.daemon = .user) (size : Nat) :
    Sound dae { s with
      paused := Function.update s.paused dae true
      daemon := .reading size false } := by
  refine { sound with
    asleep := ?_
    resting := fun _ => ⟨size, false, rfl⟩
    turn := ?_ }
  · intro cli call pausing
    have away : cli ≠ dae := sound.ne_daemon (by rw [pausing]; exact nofun)
    exact (Function.update_of_ne away _ _).trans (sound.asleep pausing)
  · cases sound.turn with
    | answered read later told =>
      refine .answered read later (iff_of_false ?_ nofun)
      rw [told, user]
      exact nofun
    | serving cli call control last => exact .serving cli call control last nofun

theorem Sound.closeDaemon (sound : Sound dae s) (user : s.daemon = .user)
    (control : t.control = s.control) (peer : t.peer = s.peer) (paused : t.paused = s.paused)
    (gone : t.daemon = .gone) (calls : t.calls = s.calls) (reads : t.reads = s.reads)
    (replies : t.replies = s.replies) (returns : t.returns = s.returns) : Sound dae t := by
  refine ⟨?_, ?_, ?_, ?_, ?_, ?_, ?_, ?_, ?_, ?_, ?_, ?_, ?_, ?_⟩
  · exact control ▸ sound.outside
  · rw [control, peer]
    exact sound.unlinked
  · rw [control, peer]
    exact sound.linked
  · rw [control, peer, calls]
    exact sound.entered
  · rw [control, peer]
    exact sound.unanswered
  · rw [control, paused]
    exact sound.asleep
  · rw [paused]
    intro ready
    obtain ⟨size, awakened, reading⟩ := sound.resting ready
    cases user.symm.trans reading
  · cases sound.turn with
    | answered read later told =>
      refine .answered ?_ ?_ ?_
      · rw [reads, replies]
        exact read
      · rw [control, reads]
        exact later
      · rw [control, told, gone, user]
        exact iff_of_false nofun nofun
    | serving cli call pausing last =>
      refine .serving cli call (control ▸ pausing) ?_ (by rw [gone]; exact nofun)
      rw [reads, replies]
      exact last
  · rw [reads]
    exact sound.increasing
  · rw [reads, calls]
    exact sound.called
  · rw [control, replies, returns]
    exact sound.held
  · rw [control, replies, returns]
    exact sound.delivered
  · rw [replies, returns]
    exact sound.returned
  · rw [returns]
    exact sound.once

/-- The daemon reads a request, when it was awakened for it. -/
theorem Sound.resumeRead (sound : Sound dae s) {size : Nat} (reading : s.daemon = .reading size true)
    (resumed : resumeRead dae s size = some t) : Sound dae t := by
  obtain ⟨cli, call, pair, back, inCall, -, rfl⟩ := resumeRead_eq_some_iff.mp resumed
  cases sound.turn with
  | answered read later told =>
    -- the client that sleeps is the one the daemon is paired with
    obtain ⟨other, call', pausing⟩ := told.mpr ⟨size, reading⟩
    have waits : (s.control other).awaits = some call' := by
      rw [pausing]
      rfl
    obtain rfl : other = cli := Option.some.inj ((sound.entered waits).1.symm.trans pair)
    obtain rfl : call' = call := by
      rw [pausing] at inCall
      exact Option.some.inj inCall
    refine { sound with
      asleep := ?_
      resting := ?_
      turn := .serving other call' pausing (by rw [read]) nofun
      increasing := ?_
      called := ?_ }
    · intro client call pausing
      have away : client ≠ dae := sound.ne_daemon (by rw [pausing]; exact nofun)
      exact (Function.update_of_ne away _ _).trans (sound.asleep pausing)
    · intro ready
      exact nomatch (Function.update_self dae false s.paused).symm.trans ready
    · rw [List.map_append, List.pairwise_append]
      refine ⟨sound.increasing, List.pairwise_singleton _ _, ?_⟩
      intro before member after single
      obtain ⟨entry, listed, rfl⟩ := List.mem_map.mp member
      rw [List.map_singleton, List.mem_singleton] at single
      subst single
      exact later other call' waits entry listed
    · intro entry member
      rcases List.mem_append.mp member with before | single
      · exact sound.called entry before
      · rw [List.mem_singleton] at single
        subst single
        exact (sound.entered waits).2 ▸ Nat.lt_succ_self _
  | serving other call' pausing last untold => exact absurd reading (untold size)

/-- The client the daemon replies to is the one whose request it read. -/
theorem Sound.daemonWrite (sound : Sound dae s) (user : s.daemon = .user) {reply : Reply}
    (written : daemonWrite dae s reply = some t) : Sound dae t := by
  obtain ⟨cli, call, old, pair, back, paused, pausing, rfl⟩ := daemonWrite_eq_some_iff.mp written
  obtain rfl : old = none := by
    cases old with
    | none => rfl
    | some reply => exact absurd pair (sound.unanswered pausing)
  have waits : (s.control cli).awaits = some call := by
    rw [pausing]
    rfl
  have away : cli ≠ dae := sound.ne_daemon (by rw [pausing]; exact nofun)
  have last : s.reads = s.replies.map key ++ [(cli, call.id)] := by
    cases sound.turn with
    | answered read later told =>
      obtain ⟨size, reading⟩ := told.mp ⟨cli, call, pausing⟩
      cases user.symm.trans reading
    | serving other call' control last =>
      have also : (s.control other).awaits = some call' := by
        rw [control]
        rfl
      obtain rfl := sound.alone waits also
      cases control.symm.trans pausing
      exact last
  -- the number of the call is on no earlier reply
  have unreplied : (cli, call.id) ∉ s.replies.map key := by
    intro member
    have increasing := sound.increasing
    rw [last, List.map_append, List.pairwise_append] at increasing
    exact Nat.lt_irrefl _ (increasing.2.2 _ (List.mem_map_of_mem member) call.id
      (List.mem_singleton_self _))
  generalize result : ({ s with
    linkCount := Function.update s.linkCount cli (s.linkCount cli - 1)
    peer := Function.update s.peer dae none
    replies := s.replies ++ [(cli, call.id, reply)] } : State).setControl cli
      (.pausing call (some reply)) = t
  have control : t.control cli = .pausing call (some reply) := by
    rw [← result]
    exact control_setControl ..
  have elsewhere : ∀ {other}, other ≠ cli → t.control other = s.control other := by
    intro other apart
    rw [← result]
    exact control_setControl_of_ne _ _ apart
  have free : t.peer dae = none := by
    rw [← result]
    exact Function.update_self _ _ _
  have peer : ∀ {other}, other ≠ dae → t.peer other = s.peer other := by
    intro other apart
    rw [← result]
    exact Function.update_of_ne apart _ _
  have asleep : t.paused = s.paused := by rw [← result]; rfl
  have daemon : t.daemon = s.daemon := by rw [← result]; rfl
  have calls : t.calls = s.calls := by rw [← result]; rfl
  have reads : t.reads = s.reads := by rw [← result]; rfl
  have replies : t.replies = s.replies ++ [(cli, call.id, reply)] := by rw [← result]; rfl
  have returns : t.returns = s.returns := by rw [← result]; rfl
  have nobody : ∀ {other call'}, (t.control other).awaits ≠ some call' := by
    intro other call' also
    by_cases here : other = cli
    · subst here
      rw [control] at also
      cases also
    · rw [elsewhere here] at also
      exact here (sound.alone waits also)
  have sleeper : ∀ {other call'}, t.control other ≠ .pausing call' none := by
    intro other call' also
    have awaits : (t.control other).awaits = some call' := by
      rw [also]
      rfl
    exact nobody awaits
  refine ⟨?_, ?_, ?_, fun also => absurd also nobody, ?_, fun also => absurd also sleeper, ?_, ?_,
    reads ▸ sound.increasing, ?_, ?_, ?_, ?_, returns ▸ sound.once⟩
  · rw [elsewhere away.symm]
    exact sound.outside
  · intro other fresh
    have here : other ≠ cli := by
      rintro rfl
      cases control.symm.trans fresh
    rw [elsewhere here] at fresh
    rw [peer (sound.ne_daemon (by rw [fresh]; exact nofun))]
    exact sound.unlinked fresh
  · intro other inside
    by_cases here : other = cli
    · subst here
      rw [peer away]
      exact back
    · rw [elsewhere here] at inside
      have used : s.control other ≠ .closed := by
        intro closed
        rw [closed] at inside
        exact inside.elim nofun (absurd rfl)
      rw [peer (sound.ne_daemon used)]
      exact sound.linked inside
  · intro other call' reply' _
    rw [free]
    exact nofun
  · rw [asleep, daemon]
    exact sound.resting
  · refine .answered ?_ (fun other call' also => absurd also nobody) ?_
    · rw [reads, replies, last, List.map_append]
      rfl
    · rw [daemon, user]
      exact iff_of_false (fun ⟨_, _, also⟩ => sleeper also) nofun
  · rw [reads, calls]
    exact sound.called
  · intro other call' reply' also
    rw [replies, returns, List.mem_append, List.mem_singleton]
    by_cases here : other = cli
    · subst here
      cases control.symm.trans also
      refine ⟨.inr rfl, fun member => unreplied ?_⟩
      obtain ⟨entry, returned, same⟩ := List.mem_map.mp member
      exact List.mem_map.mpr ⟨entry, sound.returned entry returned, same⟩
    · rw [elsewhere here] at also
      exact ⟨.inl (sound.held also).1, (sound.held also).2⟩
  · intro entry member
    rw [returns]
    rw [replies, List.mem_append, List.mem_singleton] at member
    rcases member with before | rfl
    · refine (sound.delivered entry before).imp id ?_
      rintro ⟨op, also⟩
      have here : entry.1 ≠ cli := by
        intro here
        rw [here] at also
        cases pausing.symm.trans also
      rw [elsewhere here]
      exact ⟨op, also⟩
    · exact .inr ⟨call.op, control⟩
  · rw [replies, returns]
    exact fun entry member => List.mem_append_left _ (sound.returned entry member)

/-! ### Operations -/

theorem Frame.trans {u : State} (one : Frame dae cli s t) (two : Frame dae cli t u) :
    Frame dae cli s u where
  control apart := (two.control apart).trans (one.control apart)
  peer apart away := (two.peer apart away).trans (one.peer apart away)
  paused apart := (two.paused apart).trans (one.paused apart)
  reads := two.reads.trans one.reads
  replies := two.replies.trans one.replies

/-- What the end of an operation leaves alone. -/
structure Finished (cli : Path) (s t : State) : Prop where
  control : t.control cli = .closed ∨ t.control cli = .idle ∧ t.peer cli = s.peer cli
  others : ∀ {other}, other ≠ cli → t.control other = s.control other
  peer : ∀ {other}, other ≠ cli → t.peer other = s.peer other
  paused : t.paused = s.paused
  daemon : t.daemon = s.daemon
  calls : t.calls = s.calls
  reads : t.reads = s.reads
  replies : t.replies = s.replies
  returns : t.returns = s.returns

theorem finished_setControl {control : Control} (result : State) (controls : result.control = s.control)
    (settled : control = .closed ∨ control = .idle ∧ result.peer cli = s.peer cli)
    (peer : ∀ {other}, other ≠ cli → result.peer other = s.peer other)
    (paused : result.paused = s.paused) (daemon : result.daemon = s.daemon)
    (calls : result.calls = s.calls) (reads : result.reads = s.reads)
    (replies : result.replies = s.replies) (returns : result.returns = s.returns) :
    Finished cli s (result.setControl cli control) where
  control := by
    rw [control_setControl]
    exact settled
  others apart := by rw [control_setControl_of_ne _ _ apart, controls]
  peer := peer
  paused := paused
  daemon := daemon
  calls := calls
  reads := reads
  replies := replies
  returns := returns

theorem finished_of_finish {op : Op} {status : UInt8} (finished : finish s cli op status = some t) :
    Finished cli s t := by
  have opened : (if status = 0 then Control.idle else .closed) = .closed ∨
      (if status = 0 then Control.idle else .closed) = .idle ∧ s.peer cli = s.peer cli := by
    split
    · exact .inr ⟨rfl, rfl⟩
    · exact .inl rfl
  unfold finish at finished
  split at finished
  · obtain rfl := Option.some.inj finished
    exact finished_setControl _ rfl opened (fun _ => rfl) rfl rfl rfl rfl rfl rfl
  · obtain rfl := Option.some.inj finished
    exact finished_setControl _ rfl opened (fun _ => rfl) rfl rfl rfl rfl rfl rfl
  · split at finished
    · obtain ⟨cleared, clear, rfl⟩ := Option.map_eq_some_iff.mp finished
      obtain ⟨-, rfl⟩ := clearPeer_eq_some_iff.mp clear
      exact finished_setControl _ rfl (.inl rfl) (fun apart => Function.update_of_ne apart _ _)
        rfl rfl rfl rfl rfl rfl
    · cases finished
  · obtain rfl := Option.some.inj finished
    exact finished_setControl _ rfl (.inr ⟨rfl, rfl⟩) (fun _ => rfl) rfl rfl rfl rfl rfl rfl

theorem Finished.frame (finished : Finished cli s t) : Frame dae cli s t where
  control := finished.others
  peer apart _ := finished.peer apart
  paused _ := by rw [finished.paused]
  reads := finished.reads
  replies := finished.replies

theorem Finished.quiet (finished : Finished cli s t) : (t.control cli).call = none := by
  rcases finished.control with closed | ⟨idle, -⟩
  · rw [closed]
    rfl
  · rw [idle]
    rfl

theorem Finished.not_fresh (finished : Finished cli s t) : t.control cli ≠ .fresh := by
  rcases finished.control with closed | ⟨idle, -⟩
  · rw [closed]
    exact nofun
  · rw [idle]
    exact nofun

theorem exists_finish {op : Op} (status : UInt8) (linked : op = .OP_CLOSE → s.peer cli ≠ none) :
    ∃ t, finish s cli op status = some t := by
  unfold finish
  split
  · exact ⟨_, rfl⟩
  · exact ⟨_, rfl⟩
  · cases peer : s.peer cli with
    | none => exact absurd peer (linked rfl)
    | some object =>
      refine ⟨_, Option.map_eq_some_iff.mpr ⟨_, clearPeer_eq_some_iff.mpr ⟨?_, rfl⟩, rfl⟩⟩
      exact peer
  · exact ⟨_, rfl⟩

/-- The client is linked to the daemon, and nothing else has changed but link counts. -/
structure Links (dae cli : Path) (s b : State) : Prop where
  frame : Frame dae cli s b
  control : b.control = s.control
  linked : b.peer cli = some dae
  paired : b.peer dae = s.peer dae
  daemon : b.daemon = s.daemon
  calls : b.calls = s.calls
  returns : b.returns = s.returns

theorem exists_enterDaemon_iff {b : State} {op : Op} {reserve : UInt8} (apart : cli ≠ dae)
    (linked : b.peer cli = some dae) :
    (∃ t, enterDaemon dae b cli op reserve = some t) ↔ b.peer dae = none := by
  constructor
  · rintro ⟨t, entered⟩
    obtain ⟨b', pair, -⟩ := Option.bind_eq_some_iff.mp entered
    exact (setPeer_eq_some_iff.mp pair).1
  · intro free
    obtain ⟨b', pair⟩ : ∃ b', setPeer b dae cli = some b' :=
      ⟨_, setPeer_eq_some_iff.mpr ⟨free, rfl⟩⟩
    by_cases got : reserve = 0
    · exact ⟨_, Option.bind_eq_some_iff.mpr ⟨_, pair, if_neg (not_not_intro got)⟩⟩
    · have still : b'.peer cli ≠ none := by
        obtain ⟨-, rfl⟩ := setPeer_eq_some_iff.mp pair
        show Function.update b.peer dae (some cli) cli ≠ none
        rw [Function.update_of_ne apart, linked]
        exact nofun
      obtain ⟨t, finished⟩ : ∃ t, finish b' cli op reserve = some t :=
        exists_finish reserve fun _ => still
      exact ⟨t, Option.bind_eq_some_iff.mpr ⟨_, pair, (if_pos got).trans finished⟩⟩

theorem awakenAndPause_setControl (e : State) (cli : Path) (control : Control) (call : Call) :
    awakenAndPause (e.setControl cli control) cli call = awakenAndPause e cli call := by
  rw [awakenAndPause, awakenAndPause, awakenDaemon, awakenDaemon]
  cases reading : e.daemon <;> simp only [State.setControl, reading, Function.update_idem]

/-- The daemon is entered, and serves the client or has no task for it. -/
theorem Sound.enterDaemon (sound : Sound dae s) (apart : cli ≠ dae)
    (quiet : (s.control cli).call = none) {b : State} (links : Links dae cli s b) {op : Op}
    {reserve : UInt8} (entered : enterDaemon dae b cli op reserve = some t) : Sound dae t := by
  obtain ⟨b', pair, rest⟩ := Option.bind_eq_some_iff.mp entered
  obtain ⟨free, rfl⟩ := setPeer_eq_some_iff.mp pair
  have wasFree : s.peer dae = none := links.paired.symm.trans free
  have paired : ∀ {other}, other ≠ dae →
      Function.update b.peer dae (some cli) other = b.peer other :=
    fun away => Function.update_of_ne away _ _
  have frame : ∀ {u : State}, Frame dae cli { b with
      linkCount := Function.update b.linkCount cli (b.linkCount cli + 1)
      peer := Function.update b.peer dae (some cli) } u → Frame dae cli s u := by
    intro u onward
    refine links.frame.trans ⟨onward.control, ?_, onward.paused, onward.reads, onward.replies⟩
    exact fun here away => (onward.peer here away).trans (paired away)
  by_cases got : reserve = 0
  · rw [if_neg (not_not_intro got)] at rest
    obtain rfl := Option.some.inj rest
    have switched : Sound dae (({ b with
        linkCount := Function.update b.linkCount cli (b.linkCount cli + 1)
        peer := Function.update b.peer dae (some cli)
        calls := b.calls + 1 } : State).setControl cli (.switching ⟨op, b.calls⟩ 50)) := by
      have switching : ∀ u : State, (u.setControl cli (.switching ⟨op, b.calls⟩ 50)).control cli =
          .switching ⟨op, s.calls⟩ 50 := by
        intro u
        rw [control_setControl, links.calls]
      refine sound.enter apart (frame ?_) quiet wasFree (switching _)
        ((paired apart).trans links.linked) (Function.update_self _ _ _) links.daemon
        (congrArg (· + 1) links.calls) links.returns
      exact ⟨fun here => control_setControl_of_ne _ _ here, fun _ _ => rfl, fun _ => rfl, rfl, rfl⟩
    rw [switchProcess]
    split
    · rename_i ready
      rw [← awakenAndPause_setControl]
      exact switched.awaken (control_setControl ..) ready
    · exact switched
  · rw [if_pos got] at rest
    have finished := finished_of_finish rest
    refine sound.settle apart (frame finished.frame) quiet finished.quiet
      (fun fresh => absurd fresh finished.not_fresh) ?_ (.inr ⟨wasFree, ?_⟩)
      (finished.daemon.trans links.daemon) (finished.calls.trans links.calls)
      (finished.returns.trans links.returns)
    · intro idle
      rcases finished.control with closed | ⟨-, peer⟩
      · cases idle.symm.trans closed
      · exact peer.trans ((paired apart).trans links.linked)
    · exact (finished.peer apart.symm).trans (Function.update_self _ _ _)

theorem links_of_setPeer {b : State} (apart : cli ≠ dae) (linked : setPeer s cli dae = some b) :
    Links dae cli s b := by
  obtain ⟨-, rfl⟩ := setPeer_eq_some_iff.mp linked
  exact ⟨⟨fun _ => rfl, fun here _ => Function.update_of_ne here _ _, fun _ => rfl, rfl, rfl⟩, rfl,
    Function.update_self _ _ _, Function.update_of_ne apart.symm _ _, rfl, rfl, rfl⟩

theorem Sound.links (sound : Sound dae s) (idle : s.control cli = .idle)
    (linkCount : Path → UInt8) : Links dae cli s { s with linkCount := linkCount } :=
  ⟨⟨fun _ => rfl, fun _ _ => rfl, fun _ => rfl, rfl, rfl⟩, rfl, sound.linked (.inl idle), rfl, rfl,
    rfl, rfl⟩

/-- An operation on an open path. -/
theorem Sound.exists_operation_iff (sound : Sound dae s) (idle : s.control cli = .idle)
    {linkCount : Path → UInt8} {op : Op} {reserve : UInt8} :
    (∃ t, clientOperation dae { s with linkCount := linkCount } cli op none reserve = some t) ↔
      s.isDaemon = true ∧ s.peer dae = none := by
  have linked : s.peer cli = some dae := sound.linked (.inl idle)
  have apart : cli ≠ dae := sound.ne_daemon (by rw [idle]; exact nofun)
  rw [clientOperation_linked]
  by_cases daemon : s.isDaemon = true
  · rw [if_pos ⟨linked, daemon⟩, and_iff_right daemon]
    exact exists_enterDaemon_iff (b := { s with linkCount := linkCount }) apart linked
  · rw [if_neg (fun both => daemon both.2)]
    exact iff_of_false nofun fun both => daemon both.1

theorem Sound.operation (sound : Sound dae s) (idle : s.control cli = .idle)
    {linkCount : Path → UInt8} {op : Op} {reserve : UInt8}
    (called : clientOperation dae { s with linkCount := linkCount } cli op none reserve = some t) :
    Sound dae t := by
  rw [clientOperation_linked] at called
  split at called
  · refine sound.enterDaemon ?_ ?_ (sound.links idle linkCount) called
    · exact sound.ne_daemon (by rw [idle]; exact nofun)
    · rw [idle]
      rfl
  · cases called

/-! ### Steps -/

/-- As long as the invariant holds, no assertion of a step fails just when the step fits. -/
theorem Sound.exists_step_iff (sound : Sound dae s) (action : Action) :
    (∃ t, step dae s action = some t) ↔ Fits dae s action := by
  cases action with
  | alloc cli =>
    rw [step]
    split
    · exact iff_of_true ⟨_, rfl⟩ trivial
    · exact iff_of_true ⟨_, rfl⟩ trivial
  | openPath cli name reserve =>
    rw [step, Fits]
    by_cases fresh : s.control cli = .fresh
    · have apart : cli ≠ dae := sound.ne_daemon (by rw [fresh]; simp)
      rw [if_pos fresh, clientOperation_opening, forall_prop_of_true fresh]
      by_cases found : s.name = some name
      · rw [if_pos found, forall_prop_of_true found]
        obtain ⟨b, linked⟩ : ∃ b, setPeer s cli dae = some b :=
          ⟨_, setPeer_eq_some_iff.mpr ⟨sound.unlinked fresh, rfl⟩⟩
        have links := links_of_setPeer apart linked
        rw [linked, Option.bind_some, exists_enterDaemon_iff apart links.linked, links.paired]
      · rw [if_neg found]
        exact iff_of_true (exists_finish _ fun wrong => by cases wrong) fun wrong => absurd wrong found
    · rw [if_neg fresh]
      exact iff_of_true ⟨s, rfl⟩ fun wrong => absurd wrong fresh
  | operate cli op reserve =>
    rw [step, Fits]
    by_cases fresh : s.control cli = .fresh ∧ op.byName = true
    · -- `CheckDaemon` gets a null pointer
      have unlinked : s.peer cli ≠ some dae := by
        rw [sound.unlinked fresh.1]
        exact (Option.some_ne_none dae).symm
      rw [if_pos (.inr fresh), clientOperation_linked, if_neg fun linked => unlinked linked.1]
      exact iff_of_false (by simp) fun fits => fits.2 fresh
    · rw [and_iff_left fresh]
      by_cases ready : s.control cli = .idle ∧ op.plain = true
      · rw [if_pos (.inl ready), forall_prop_of_true ready.1, forall_prop_of_true ready.2]
        exact sound.exists_operation_iff ready.1
      · rw [if_neg (not_or.mpr ⟨ready, fresh⟩)]
        exact iff_of_true ⟨s, rfl⟩ fun idle plain => absurd ⟨idle, plain⟩ ready
  | close cli reserve =>
    rw [step, Fits]
    by_cases idle : s.control cli = .idle
    · rw [if_pos idle, forall_prop_of_true idle]
      have left : Function.update s.linkCount cli (s.linkCount cli - 1) cli =
          s.linkCount cli - 1 := Function.update_self _ _ _
      by_cases last : s.linkCount cli - 1 = 0
      · simp only [if_neg (not_not_intro (left.trans last)), forall_prop_of_true last]
        exact sound.exists_operation_iff idle
      · simp only [if_pos (left.trans_ne last)]
        exact iff_of_true ⟨_, rfl⟩ fun wrong => absurd wrong last
    · rw [if_neg idle]
      exact iff_of_true ⟨s, rfl⟩ fun wrong => absurd wrong idle
  | tick cli =>
    rw [step, Fits]
    split
    · rename_i call timeout switching
      by_cases left : 0 < timeout - 1
      · rw [if_pos left]
        refine iff_of_true ?_ ?_
        · split
          · exact ⟨_, rfl⟩
          · exact ⟨_, rfl⟩
        · intro call' timeout' also
          cases switching.symm.trans also
          omega
      · rw [if_neg left]
        refine iff_of_false (by simp) fun fits => ?_
        have more := fits call timeout switching
        omega
    · rename_i apart
      exact iff_of_true ⟨s, rfl⟩ fun call timeout wrong => absurd wrong (apart call timeout)
  | resume cli =>
    rw [step]
    refine iff_of_true ?_ trivial
    split
    · rename_i call reply pausing
      refine exists_finish _ fun _ => ?_
      show s.peer cli ≠ none
      rw [sound.linked (.inr (by rw [pausing]; exact Option.some_ne_none call))]
      simp
    · exact ⟨s, rfl⟩
  | readDaemon size =>
    rw [step]
    split
    · exact iff_of_true ⟨_, rfl⟩ trivial
    · exact iff_of_true ⟨_, rfl⟩ trivial
  | resumeDaemon =>
    rw [step, Fits]
    cases daemon : s.daemon with
    | user => exact iff_of_true ⟨s, rfl⟩ (by simp)
    | gone => exact iff_of_true ⟨s, rfl⟩ (by simp)
    | reading size awakened =>
      cases awakened with
      | false => exact iff_of_true ⟨s, rfl⟩ (by simp)
      | true =>
        -- the daemon is paired with a client that sleeps
        obtain ⟨cli, call, pausing⟩ := sound.sleeper_of_awakened daemon
        have waits : (s.control cli).awaits = some call := by
          rw [pausing]
          rfl
        have pair := (sound.entered waits).1
        have inCall := Control.call_of_awaits waits
        constructor
        · rintro ⟨t, resumed⟩ size' other call' same pair' inCall' wants
          cases same
          obtain ⟨found, its, pair'', -, also, room, -⟩ := resumeRead_eq_some_iff.mp resumed
          cases pair'.symm.trans pair''
          cases inCall'.symm.trans also
          exact not_le.mp fun small => room ⟨wants, small⟩
        · intro fits
          refine ⟨_, resumeRead_eq_some_iff.mpr ⟨cli, call, pair, ?_, inCall, ?_, rfl⟩⟩
          · exact sound.linked (.inr (by rw [pausing]; exact Option.some_ne_none call))
          · exact fun both => not_le.mpr (fits size cli call rfl pair inCall both.1) both.2
  | writeDaemon reply =>
    rw [step, Fits]
    by_cases user : s.daemon = .user
    · rw [if_pos user, forall_prop_of_true user]
      constructor
      · rintro ⟨t, written⟩
        obtain ⟨cli, call, old, pair, -, -, pausing, -⟩ := daemonWrite_eq_some_iff.mp written
        cases old with
        | none => exact ⟨cli, call, pair, pausing⟩
        | some reply => exact absurd pair (sound.unanswered pausing)
      · rintro ⟨cli, call, pair, pausing⟩
        have back := sound.linked (.inr (by rw [pausing]; exact Option.some_ne_none call))
        exact ⟨_, daemonWrite_eq_some_iff.mpr
          ⟨cli, call, none, pair, back, sound.asleep pausing, pausing, rfl⟩⟩
    · rw [if_neg user]
      exact iff_of_true ⟨s, rfl⟩ fun wrong => absurd wrong user
  | closeDaemon =>
    rw [step]
    refine iff_of_true ?_ trivial
    split
    · dsimp only
      split
      · exact ⟨_, rfl⟩
      · exact ⟨_, rfl⟩
    · exact ⟨s, rfl⟩

theorem Sound.step (sound : Sound dae s) {action : Action} (stepped : step dae s action = some t) :
    Sound dae t := by
  cases action with
  | alloc cli =>
    rw [Fuse.step] at stepped
    split at stepped
    · rename_i free
      obtain rfl := Option.some.inj stepped
      refine sound.settle free.1 ⟨fun here => control_setControl_of_ne _ _ here,
        fun here _ => Function.update_of_ne here _ _, fun here => Function.update_of_ne here _ _,
        rfl, rfl⟩ ?_ ?_ ?_ ?_ (.inl (Function.update_of_ne free.1.symm _ _)) rfl rfl rfl
      · rw [free.2]
        rfl
      · rw [control_setControl]
        rfl
      · exact fun _ => Function.update_self _ _ _
      · intro idle
        cases (control_setControl ..).symm.trans idle
    · exact Option.some.inj stepped ▸ sound
  | openPath cli name reserve =>
    rw [Fuse.step] at stepped
    split at stepped
    · rename_i fresh
      have apart : cli ≠ dae := sound.ne_daemon (by rw [fresh]; simp)
      have quiet : (s.control cli).call = none := by
        rw [fresh]
        rfl
      rw [clientOperation_opening] at stepped
      split at stepped
      · obtain ⟨b, linked, entered⟩ := Option.bind_eq_some_iff.mp stepped
        exact sound.enterDaemon apart quiet (links_of_setPeer apart linked) entered
      · -- the kernel gives the path descriptor back
        obtain rfl := Option.some.inj stepped
        have closed : ∀ u : State, (u.setControl cli .closed).control cli = .closed :=
          fun u => control_setControl u cli _
        refine sound.settle apart ⟨fun here => control_setControl_of_ne _ _ here, fun _ _ => rfl,
          fun _ => rfl, rfl, rfl⟩ quiet ?_ ?_ ?_ (.inl rfl) rfl rfl rfl
        · exact (congrArg Control.call (closed _)).trans rfl
        · exact fun wrong => by cases (closed _).symm.trans wrong
        · exact fun wrong => by cases (closed _).symm.trans wrong
    · exact Option.some.inj stepped ▸ sound
  | operate cli op reserve =>
    rw [Fuse.step] at stepped
    split at stepped
    · rename_i ready
      obtain ⟨idle, -⟩ | ⟨fresh, -⟩ := ready
      · exact sound.operation idle stepped
      · rw [clientOperation_linked, sound.unlinked fresh] at stepped
        simp at stepped
    · exact Option.some.inj stepped ▸ sound
  | close cli reserve =>
    rw [Fuse.step] at stepped
    split at stepped
    · rename_i idle
      dsimp only at stepped
      split at stepped
      · obtain rfl := Option.some.inj stepped
        have closed : ∀ u : State, (u.setControl cli .closed).control cli = .closed :=
          fun u => control_setControl u cli _
        refine sound.settle (sound.ne_daemon ?_) ⟨fun here => control_setControl_of_ne _ _ here,
          fun _ _ => rfl, fun _ => rfl, rfl, rfl⟩ ?_ ?_ ?_ ?_ (.inl rfl) rfl rfl rfl
        · rw [idle]
          simp
        · rw [idle]
          rfl
        · exact (congrArg Control.call (closed _)).trans rfl
        · exact fun wrong => by cases (closed _).symm.trans wrong
        · exact fun wrong => by cases (closed _).symm.trans wrong
      · exact sound.operation idle stepped
    · exact Option.some.inj stepped ▸ sound
  | tick cli =>
    rw [Fuse.step] at stepped
    split at stepped
    · rename_i call timeout switching
      split at stepped
      · split at stepped
        · rename_i ready
          obtain rfl := Option.some.inj stepped
          exact sound.awaken switching ready
        · obtain rfl := Option.some.inj stepped
          exact sound.tick switching
      · cases stepped
    · exact Option.some.inj stepped ▸ sound
  | resume cli =>
    rw [Fuse.step] at stepped
    split at stepped
    · rename_i call reply pausing
      have finished := finished_of_finish stepped
      have away : cli ≠ dae := sound.ne_daemon (by rw [pausing]; simp)
      refine sound.finish ⟨finished.others, fun here _ => finished.peer here, ?_, finished.reads,
        finished.replies⟩ pausing finished.quiet finished.not_fresh ?_ (finished.peer away.symm)
        finished.daemon finished.calls finished.returns
      · intro other here
        rw [finished.paused]
        exact Function.update_of_ne here _ _
      · intro idle
        rcases finished.control with closed | ⟨-, peer⟩
        · cases idle.symm.trans closed
        · refine peer.trans (sound.linked (.inr ?_))
          rw [pausing]
          exact Option.some_ne_none call
    · exact Option.some.inj stepped ▸ sound
  | readDaemon size =>
    rw [Fuse.step] at stepped
    split at stepped
    · rename_i user
      obtain rfl := Option.some.inj stepped
      exact sound.readDaemon user size
    · exact Option.some.inj stepped ▸ sound
  | resumeDaemon =>
    rw [Fuse.step] at stepped
    split at stepped
    · rename_i size reading
      exact sound.resumeRead reading stepped
    · exact Option.some.inj stepped ▸ sound
  | writeDaemon reply =>
    rw [Fuse.step] at stepped
    split at stepped
    · rename_i user
      exact sound.daemonWrite user stepped
    · exact Option.some.inj stepped ▸ sound
  | closeDaemon =>
    rw [Fuse.step] at stepped
    split at stepped
    · rename_i user
      dsimp only at stepped
      split at stepped
      · obtain rfl := Option.some.inj stepped
        exact sound.closeDaemon user rfl rfl rfl rfl rfl rfl rfl rfl
      · obtain rfl := Option.some.inj stepped
        exact sound.closeDaemon user rfl rfl rfl rfl rfl rfl rfl rfl
    · exact Option.some.inj stepped ▸ sound

/-- No assertion of a run fails, and it is safe, just when its steps fit. -/
theorem safe_iff_fits (dae : Path) (name : Text) (actions : List Action) :
    (∃ s, run (step dae) (start name) actions = some s ∧ Safe dae s) ↔
      Meets (step dae) (Fits dae) (start name) actions := by
  rw [← exists_run_iff_meets (Sound dae) (fun s action t sound stepped => sound.step stepped)
    (fun s action sound => sound.exists_step_iff action) (sound_start dae name)]
  constructor
  · rintro ⟨s, reached, -⟩
    exact ⟨s, reached⟩
  · rintro ⟨s, reached⟩
    have sound := invariant_of_run (Sound dae) (fun s action t sound _ stepped => sound.step stepped)
      (sound_start dae name) (meets_true _ actions) reached
    exact ⟨s, reached, sound.safe⟩

/-- A second client opens a path while the daemon `0` is paired with the first. -/
theorem not_safe_secondClient : ¬∀ dae name actions,
    ∃ s, run (step dae) (start name) actions = some s ∧ Safe dae s := by
  intro law
  obtain ⟨s, reached, -⟩ := law 0 [] [.alloc 1, .alloc 2, .openPath 1 [] 0, .openPath 2 [] 0]
  cases reached

end

end Frobio.Fuse
