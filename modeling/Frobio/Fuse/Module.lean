/-
This file models `fuse-modules/fusec.c`: a file manager whose clients are served by a
daemon, a process that reads their requests and writes the replies, one at a time.

A client and the daemon are paired by the pointers `peer` of their path descriptors, and
each pointer counts as a link of the descriptor it points to. A call runs to its end or to
the next sleep, without being interrupted. There is one daemon; any process may be a
client, and a step belongs to the process on a path.

The kernel allocates a path descriptor before it calls `CreateOrOpenC`, and gives it back
when the open fails. It does the same for `MakDirC`, `ChgDirC` and `DeleteC`, which name a
file, and whose descriptor is linked to no daemon. It counts the links of a path down
before it calls `CloseC`.
`Os9Move` does not fail, and a process that sleeps is only awakened by this module.
-/

import Mathlib.Logic.Function.Basic
import Mathlib.Tactic
import Frobio.Lib.Run

namespace Frobio.Fuse

abbrev Path := Nat

abbrev Text := List UInt8

inductive Op
  | OP_CREATE
  | OP_OPEN
  | OP_CLOSE
  | OP_READ
  | OP_WRITE
  | OP_READLN
  | OP_WRITLN
  | OP_MAKDIR
  | OP_CHGDIR
  | OP_DELETE
  | OP_SEEK
  | OP_GETSTAT
  | OP_SETSTAT
  deriving DecidableEq

def E_SHARE : UInt8 := 0xFD

/-- `struct FuseReply`, and what is behind it. -/
structure Reply where
  status : UInt8
  payload : Text
  deriving DecidableEq

/-- What a client calls. The number tells the calls apart. -/
structure Call where
  op : Op
  id : Nat
  deriving DecidableEq

/-- Where the process of a client is. The `ClientTmp` of a call is on its stack. -/
inductive Control
  /-- There is no path. -/
  | closed
  /-- The kernel has allocated the path descriptor. -/
  | fresh
  /-- The path is open, and its process outside of this module. -/
  | idle
  /-- In the loop of `SwitchProcess`. -/
  | switching (call : Call) (timeout : Nat)
  /-- In `Os9Pause`; awakened, if there is a reply. -/
  | pausing (call : Call) (reply : Option Reply)
  deriving DecidableEq

/-- Where the process of the daemon is. -/
inductive DaemonControl
  | user
  /-- Asleep in `DaemonReadC`, with a buffer of this size, or awakened. -/
  | reading (size : Nat) (awakened : Bool)
  /-- The process has closed its path. -/
  | gone
  deriving DecidableEq

structure State where
  peer : Path → Option Path
  linkCount : Path → UInt8
  /-- Is `paused_proc_id` not zero? -/
  paused : Path → Bool
  /-- The name of the daemon, and its flag `is_daemon`. -/
  name : Option Text
  isDaemon : Bool
  control : Path → Control
  daemon : DaemonControl
  /-- The operations that returned, with their errors. -/
  answers : List (Path × Op × UInt8)
  /-- The calls so far, the requests read, the replies written and those returned, in order. -/
  calls : Nat
  reads : List (Path × Nat)
  replies : List (Path × Nat × Reply)
  returns : List (Path × Nat × Reply)

section

variable (dae : Path)

/-! ### Peers -/

/-- `none` is an assertion that fails. -/
def setPeer (s : State) (subject object : Path) : Option State :=
  if s.peer subject = none then
    some { s with
      linkCount := Function.update s.linkCount object (s.linkCount object + 1)
      peer := Function.update s.peer subject (some object) }
  else none

def clearPeer (s : State) (subject object : Path) : Option State :=
  if s.peer subject = some object then
    some { s with
      linkCount := Function.update s.linkCount object (s.linkCount object - 1)
      peer := Function.update s.peer subject none }
  else none

/-! ### Clients -/

def State.setControl (s : State) (cli : Path) (control : Control) : State :=
  { s with control := Function.update s.control cli control }

/-- The daemon gets a signal. -/
def awakenDaemon (s : State) : State :=
  match s.daemon with
  | .reading size _ => { s with daemon := .reading size true }
  | _ => s

/-- The end of `SwitchProcess`. -/
def awakenAndPause (s : State) (cli : Path) (call : Call) : State :=
  ({ awakenDaemon s with paused := Function.update s.paused cli true }).setControl cli
    (.pausing call none)

/-- `SwitchProcess` up to its first sleep. -/
def switchProcess (s : State) (cli : Path) (call : Call) : State :=
  if s.paused dae then awakenAndPause s cli call else s.setControl cli (.switching call 50)

/-- What is left to do when `ClientOperationC` returns. -/
def finish (s : State) (cli : Path) (op : Op) (status : UInt8) : Option State :=
  let answered := { s with answers := s.answers ++ [(cli, op, status)] }
  match op with
  | .OP_CREATE | .OP_OPEN =>
    some (answered.setControl cli (if status = 0 then .idle else .closed))
  | .OP_CLOSE =>
    match s.peer cli with
    | some object => (clearPeer answered cli object).map fun s' => s'.setControl cli .closed
    | none => none
  | _ => some (answered.setControl cli .idle)

/-- `ClientOperationC` from the second `SetPeer` on. `reserve` is the result of `Os9ReserveTask`. -/
def enterDaemon (s : State) (cli : Path) (op : Op) (reserve : UInt8) : Option State := do
  let s' ← setPeer s dae cli
  if reserve ≠ 0 then finish s' cli op reserve
  else some (switchProcess dae { s' with calls := s'.calls + 1 } cli ⟨op, s'.calls⟩)

/-- `ClientOperationC` up to its first sleep. -/
def clientOperation (s : State) (cli : Path) (op : Op) (opening : Option Text) (reserve : UInt8) :
    Option State :=
  match opening with
  | some name =>
    if s.name = some name then
      (setPeer s cli dae).bind fun s' => enterDaemon dae s' cli op reserve
    else finish s cli op E_SHARE
  | none =>
    if s.peer cli = some dae ∧ s.isDaemon = true then enterDaemon dae s cli op reserve else none

/-- The operations but open and close. -/
def Op.plain : Op → Bool
  | .OP_CREATE | .OP_OPEN | .OP_CLOSE => false
  | _ => true

/-- The operations that the kernel calls with a descriptor it has just allocated. -/
def Op.byName : Op → Bool
  | .OP_MAKDIR | .OP_CHGDIR | .OP_DELETE => true
  | _ => false

/-! ### The daemon -/

/-- The operations for which `DaemonReadC` wants room for more than the request. -/
def Op.wantsRoom : Op → Bool
  | .OP_CREATE | .OP_OPEN | .OP_WRITE | .OP_WRITLN => true
  | _ => false

def sizeofRequest : Nat := 6

/-- `DaemonReadC` from its sleep on. -/
def resumeRead (s : State) (size : Nat) : Option State :=
  match s.peer dae with
  | none => none
  | some cli =>
    if s.peer cli = some dae then
      match s.control cli with
      | .switching call _ | .pausing call _ =>
        if call.op.wantsRoom = true ∧ size ≤ sizeofRequest then none
        else
          some { s with
            paused := Function.update s.paused dae false
            daemon := .user
            reads := s.reads ++ [(cli, call.id)] }
      | _ => none
    else none

def daemonWrite (s : State) (reply : Reply) : Option State :=
  match s.peer dae with
  | none => none
  | some cli =>
    if s.peer cli = some dae ∧ s.paused cli = true then
      match s.control cli with
      | .pausing call _ =>
        (clearPeer s dae cli).map fun s' =>
          { s' with replies := s'.replies ++ [(cli, call.id, reply)] }.setControl cli
            (.pausing call (some reply))
      | _ => none
    else none

/-! ### Steps -/

inductive Action
  /-- The kernel allocates a path descriptor. -/
  | alloc (cli : Path)
  | openPath (cli : Path) (name : Text) (reserve : UInt8)
  | operate (cli : Path) (op : Op) (reserve : UInt8)
  | close (cli : Path) (reserve : UInt8)
  /-- A tick of `SwitchProcess` is over. -/
  | tick (cli : Path)
  /-- A client that was awakened goes on. -/
  | resume (cli : Path)
  | readDaemon (size : Nat)
  | resumeDaemon
  | writeDaemon (reply : Reply)
  | closeDaemon

/-- A step of an action. What cannot happen leaves the state alone; `none` is an assertion that
fails. -/
def step (s : State) : Action → Option State
  | .alloc cli =>
    if cli ≠ dae ∧ s.control cli = .closed then
      some ({ s with
        peer := Function.update s.peer cli none
        linkCount := Function.update s.linkCount cli 1
        paused := Function.update s.paused cli false }.setControl cli .fresh)
    else some s
  | .openPath cli name reserve =>
    if s.control cli = .fresh then clientOperation dae s cli .OP_OPEN (some name) reserve else some s
  | .operate cli op reserve =>
    if s.control cli = .idle ∧ op.plain = true ∨ s.control cli = .fresh ∧ op.byName = true then
      clientOperation dae s cli op none reserve
    else some s
  | .close cli reserve =>
    if s.control cli = .idle then
      let s' := { s with linkCount := Function.update s.linkCount cli (s.linkCount cli - 1) }
      if s'.linkCount cli ≠ 0 then
        some ({ s' with answers := s'.answers ++ [(cli, Op.OP_CLOSE, 0)] }.setControl cli .closed)
      else clientOperation dae s' cli .OP_CLOSE none reserve
    else some s
  | .tick cli =>
    match s.control cli with
    | .switching call timeout =>
      if 0 < timeout - 1 then
        if s.paused dae then some (awakenAndPause s cli call)
        else some (s.setControl cli (.switching call (timeout - 1)))
      else none
    | _ => some s
  | .resume cli =>
    match s.control cli with
    | .pausing call (some reply) =>
      finish { s with
        paused := Function.update s.paused cli false
        returns := s.returns ++ [(cli, call.id, reply)] } cli call.op reply.status
    | _ => some s
  | .readDaemon size =>
    if s.daemon = .user then
      some { s with paused := Function.update s.paused dae true, daemon := .reading size false }
    else some s
  | .resumeDaemon =>
    match s.daemon with
    | .reading size true => resumeRead dae s size
    | _ => some s
  | .writeDaemon reply => if s.daemon = .user then daemonWrite dae s reply else some s
  | .closeDaemon =>
    if s.daemon = .user then
      let s' := { s with
        linkCount := Function.update s.linkCount dae (s.linkCount dae - 1)
        daemon := .gone }
      if s'.linkCount dae ≠ 0 then some s' else some { s' with name := none, isDaemon := false }
    else some s

/-- The daemon is open, and there are no clients. -/
def start (name : Text) : State where
  peer _ := none
  linkCount _ := 1
  paused _ := false
  name := some name
  isDaemon := true
  control _ := .closed
  daemon := .user
  answers := []
  calls := 0
  reads := []
  replies := []
  returns := []

/-! ### What the functions do -/

variable {dae} {s t : State}

theorem setPeer_eq_some_iff {subject object : Path} :
    setPeer s subject object = some t ↔ s.peer subject = none ∧ t = { s with
      linkCount := Function.update s.linkCount object (s.linkCount object + 1)
      peer := Function.update s.peer subject (some object) } := by
  rw [setPeer]
  split
  · rename_i free
    rw [Option.some.injEq]
    exact ⟨fun same => ⟨free, same.symm⟩, fun same => same.2.symm⟩
  · rename_i taken
    exact iff_of_false nofun fun both => taken both.1

theorem clearPeer_eq_some_iff {subject object : Path} :
    clearPeer s subject object = some t ↔ s.peer subject = some object ∧ t = { s with
      linkCount := Function.update s.linkCount object (s.linkCount object - 1)
      peer := Function.update s.peer subject none } := by
  rw [clearPeer]
  split
  · rename_i paired
    rw [Option.some.injEq]
    exact ⟨fun same => ⟨paired, same.symm⟩, fun same => same.2.symm⟩
  · rename_i apart
    exact iff_of_false nofun fun both => apart both.1

/-- The call of a client that is in an operation. -/
def Control.call : Control → Option Call
  | .switching call _ | .pausing call _ => some call
  | _ => none

theorem resumeRead_eq_some_iff {size : Nat} :
    resumeRead dae s size = some t ↔ ∃ cli call, s.peer dae = some cli ∧ s.peer cli = some dae ∧
      (s.control cli).call = some call ∧ ¬(call.op.wantsRoom = true ∧ size ≤ sizeofRequest) ∧
        t = { s with
          paused := Function.update s.paused dae false
          daemon := .user
          reads := s.reads ++ [(cli, call.id)] } := by
  rw [resumeRead]
  cases s.peer dae with
  | none => exact iff_of_false nofun fun ⟨_, _, wrong, _⟩ => nomatch wrong
  | some cli =>
    have only : (∃ other call, some cli = some other ∧ s.peer other = some dae ∧
        (s.control other).call = some call ∧
          ¬(call.op.wantsRoom = true ∧ size ≤ sizeofRequest) ∧ t = { s with
            paused := Function.update s.paused dae false
            daemon := .user
            reads := s.reads ++ [(other, call.id)] }) ↔
        s.peer cli = some dae ∧ ∃ call, (s.control cli).call = some call ∧
          ¬(call.op.wantsRoom = true ∧ size ≤ sizeofRequest) ∧ t = { s with
            paused := Function.update s.paused dae false
            daemon := .user
            reads := s.reads ++ [(cli, call.id)] } := by
      constructor
      · rintro ⟨other, call, same, back, rest⟩
        cases same
        exact ⟨back, call, rest⟩
      · rintro ⟨back, call, rest⟩
        exact ⟨cli, call, rfl, back, rest⟩
    rw [only]
    by_cases back : s.peer cli = some dae
    · simp only [if_pos back, and_iff_right back]
      cases s.control cli with
      | switching call _ | pausing call _ =>
        simp only [Control.call, Option.some.injEq, exists_eq_left']
        by_cases small : call.op.wantsRoom = true ∧ size ≤ sizeofRequest
        · rw [if_pos small]
          exact iff_of_false nofun fun both => both.1 small
        · rw [if_neg small, and_iff_right small, Option.some.injEq]
          exact eq_comm
      | closed | fresh | idle => exact iff_of_false nofun fun ⟨_, wrong, _⟩ => nomatch wrong
    · simp only [if_neg back]
      exact iff_of_false nofun fun both => back both.1

theorem daemonWrite_eq_some_iff {reply : Reply} :
    daemonWrite dae s reply = some t ↔ ∃ cli call old, s.peer dae = some cli ∧
      s.peer cli = some dae ∧ s.paused cli = true ∧ s.control cli = .pausing call old ∧
        t = ({ s with
          linkCount := Function.update s.linkCount cli (s.linkCount cli - 1)
          peer := Function.update s.peer dae none
          replies := s.replies ++ [(cli, call.id, reply)] } : State).setControl cli
            (.pausing call (some reply)) := by
  constructor
  · intro written
    rw [daemonWrite] at written
    split at written
    · cases written
    · rename_i cli pair
      split at written
      · rename_i ready
        split at written
        · rename_i call old pausing
          obtain ⟨cleared, clear, rfl⟩ := Option.map_eq_some_iff.mp written
          obtain ⟨-, rfl⟩ := clearPeer_eq_some_iff.mp clear
          exact ⟨cli, call, old, pair, ready.1, ready.2, pausing, rfl⟩
        · cases written
      · cases written
  · rintro ⟨cli, call, old, pair, back, paused, pausing, rfl⟩
    rw [daemonWrite, pair]
    simp only [if_pos (And.intro back paused), pausing, clearPeer, if_pos pair, Option.map_some]

theorem control_setControl (s : State) (cli : Path) (control : Control) :
    (s.setControl cli control).control cli = control := Function.update_self _ _ _

theorem control_setControl_of_ne (s : State) {cli other : Path} (control : Control)
    (apart : other ≠ cli) : (s.setControl cli control).control other = s.control other :=
  Function.update_of_ne apart _ _

theorem awakenDaemon_eq (s : State) : ∃ daemon, awakenDaemon s = { s with daemon := daemon } := by
  rw [awakenDaemon]
  split
  · exact ⟨_, rfl⟩
  · exact ⟨s.daemon, rfl⟩

theorem clientOperation_opening (s : State) (cli : Path) (op : Op) (name : Text)
    (reserve : UInt8) : clientOperation dae s cli op (some name) reserve =
      if s.name = some name then
        (setPeer s cli dae).bind fun s' => enterDaemon dae s' cli op reserve
      else finish s cli op E_SHARE := rfl

theorem clientOperation_linked (s : State) (cli : Path) (op : Op) (reserve : UInt8) :
    clientOperation dae s cli op none reserve =
      if s.peer cli = some dae ∧ s.isDaemon = true then enterDaemon dae s cli op reserve
      else none := rfl

/-! ### Other clients -/

theorem finish_control_of_ne {cli other : Path} {op : Op} {status : UInt8} (apart : other ≠ cli)
    (finished : finish s cli op status = some t) : t.control other = s.control other := by
  unfold finish at finished
  split at finished
  · obtain rfl := Option.some.inj finished
    exact control_setControl_of_ne _ _ apart
  · obtain rfl := Option.some.inj finished
    exact control_setControl_of_ne _ _ apart
  · split at finished
    · obtain ⟨cleared, clear, rfl⟩ := Option.map_eq_some_iff.mp finished
      obtain ⟨-, rfl⟩ := clearPeer_eq_some_iff.mp clear
      exact control_setControl_of_ne _ _ apart
    · cases finished
  · obtain rfl := Option.some.inj finished
    exact control_setControl_of_ne _ _ apart

theorem awakenAndPause_control_of_ne {cli other : Path} (call : Call) (apart : other ≠ cli) :
    (awakenAndPause s cli call).control other = s.control other := by
  obtain ⟨daemon, awakened⟩ := awakenDaemon_eq s
  rw [awakenAndPause, awakened]
  exact control_setControl_of_ne _ _ apart

theorem enterDaemon_control_of_ne {cli other : Path} {op : Op} {reserve : UInt8}
    (apart : other ≠ cli) (entered : enterDaemon dae s cli op reserve = some t) :
    t.control other = s.control other := by
  obtain ⟨paired, pair, rest⟩ := Option.bind_eq_some_iff.mp entered
  obtain ⟨-, rfl⟩ := setPeer_eq_some_iff.mp pair
  split at rest
  · exact (finish_control_of_ne apart rest).trans rfl
  · obtain rfl := Option.some.inj rest
    rw [switchProcess]
    split
    · exact awakenAndPause_control_of_ne _ apart
    · exact control_setControl_of_ne _ _ apart

theorem clientOperation_control_of_ne {cli other : Path} {op : Op} {opening : Option Text}
    {reserve : UInt8} (apart : other ≠ cli)
    (called : clientOperation dae s cli op opening reserve = some t) :
    t.control other = s.control other := by
  unfold clientOperation at called
  split at called
  · split at called
    · obtain ⟨linked, link, entered⟩ := Option.bind_eq_some_iff.mp called
      obtain ⟨-, rfl⟩ := setPeer_eq_some_iff.mp link
      exact (enterDaemon_control_of_ne apart entered).trans rfl
    · exact finish_control_of_ne apart called
  · split at called
    · exact enterDaemon_control_of_ne apart called
    · cases called

/-- The path of the daemon is nobody's client. -/
theorem control_daemon_step (action : Action) (closed : s.control dae = .closed)
    (stepped : step dae s action = some t) : t.control dae = .closed := by
  have apart : ∀ {cli}, s.control cli ≠ .closed → dae ≠ cli := by
    rintro cli used rfl
    exact used closed
  cases action with
  | alloc cli =>
    rw [step] at stepped
    split at stepped <;> obtain rfl := Option.some.inj stepped
    · rename_i free
      exact (control_setControl_of_ne _ _ free.1.symm).trans closed
    · exact closed
  | openPath cli name reserve =>
    rw [step] at stepped
    split at stepped
    · rename_i fresh
      exact (clientOperation_control_of_ne (apart (by rw [fresh]; exact nofun)) stepped).trans closed
    · exact Option.some.inj stepped ▸ closed
  | operate cli op reserve =>
    rw [step] at stepped
    split at stepped
    · rename_i ready
      refine (clientOperation_control_of_ne (apart ?_) stepped).trans closed
      obtain ⟨idle, -⟩ | ⟨fresh, -⟩ := ready
      · rw [idle]
        exact nofun
      · rw [fresh]
        exact nofun
    · exact Option.some.inj stepped ▸ closed
  | close cli reserve =>
    rw [step] at stepped
    split at stepped
    · rename_i idle
      have other := apart (by rw [idle]; exact nofun)
      dsimp only at stepped
      split at stepped
      · obtain rfl := Option.some.inj stepped
        exact (control_setControl_of_ne _ _ other).trans closed
      · exact (clientOperation_control_of_ne other stepped).trans closed
    · exact Option.some.inj stepped ▸ closed
  | tick cli =>
    rw [step] at stepped
    split at stepped
    · rename_i call timeout switching
      have other := apart (by rw [switching]; exact nofun)
      split at stepped
      · split at stepped <;> obtain rfl := Option.some.inj stepped
        · exact (awakenAndPause_control_of_ne _ other).trans closed
        · exact (control_setControl_of_ne _ _ other).trans closed
      · cases stepped
    · exact Option.some.inj stepped ▸ closed
  | resume cli =>
    rw [step] at stepped
    split at stepped
    · rename_i call reply pausing
      exact (finish_control_of_ne (apart (by rw [pausing]; exact nofun)) stepped).trans closed
    · exact Option.some.inj stepped ▸ closed
  | readDaemon size =>
    rw [step] at stepped
    split at stepped <;> obtain rfl := Option.some.inj stepped <;> exact closed
  | resumeDaemon =>
    rw [step] at stepped
    split at stepped
    · obtain ⟨_, _, _, _, _, _, rfl⟩ := resumeRead_eq_some_iff.mp stepped
      exact closed
    · exact Option.some.inj stepped ▸ closed
  | writeDaemon reply =>
    rw [step] at stepped
    split at stepped
    · obtain ⟨cli, call, old, -, -, -, pausing, rfl⟩ := daemonWrite_eq_some_iff.mp stepped
      exact (control_setControl_of_ne _ _ (apart (by rw [pausing]; exact nofun))).trans closed
    · exact Option.some.inj stepped ▸ closed
  | closeDaemon =>
    rw [step] at stepped
    split at stepped
    · dsimp only at stepped
      split at stepped <;> obtain rfl := Option.some.inj stepped <;> exact closed
    · exact Option.some.inj stepped ▸ closed

end

end Frobio.Fuse
