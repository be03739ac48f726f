/-
This file follows the paths of LemMan from their Opens to their Closes: the link counts, which
IOMan keeps, the paths that the waiter has, and the memory that `Bridge2` asks the kernel for.

`Bridge2` tells the waiter of every Close but the last. So the waiter forgets a path while it still
has links, and keeps it when the last one is gone, and as the reply to a Close has no payload, no
buffer is ever given back.
-/

import Frobio.Lib.Transcript
import Frobio.Lemmanc.Agreement

namespace Frobio.Lemmanc

open Coms SlashPath Memory LemMan Transcript

/-! ### IOMan -/

/-- What an operation comes with. -/
structure Asked where
  regs : Regs
  memory : Task → Nat → UInt8
  kernel : Kernel
  info : FileInfo

inductive Action
  | opens (pd : UInt16) (create : Bool) (asked : Asked)
  | dup (pd : UInt16)
  | close (pd : UInt16) (asked : Asked)

/-- The waiter, what `TcpCheck` reports, and the link count and the buffer of each path
descriptor. -/
structure System where
  globals : Globals
  check : UInt8
  links : UInt16 → Nat
  buffer : UInt16 → UInt16

def System.start (disk : Disk.Disk) : System := ⟨.start disk, 0, fun _ => 0, fun _ => 0⟩

def System.call (s : System) (op : UInt8) (pd : UInt16) (linkCount : Nat) (buffer : UInt16)
    (asked : Asked) : Call :=
  ⟨op, pd, linkCount, asked.regs, asked.memory, buffer, asked.kernel, asked.info, s.check⟩

/-- A descriptor that is free is cleared before it is opened. -/
def System.openCall (s : System) (pd : UInt16) (create : Bool) (asked : Asked) : Call :=
  s.call (if create then 1 else 2) pd 1 0 asked

def System.closeCall (s : System) (pd : UInt16) (asked : Asked) : Call :=
  s.call 13 pd (s.links pd - 1) (s.buffer pd) asked

def Result.succeeds : Result → Bool
  | .returned status _ => status = 0
  | .stuck => false

/-- The system when a call has ended, with so many links of its descriptor. -/
def System.after (s : System) (pd : UInt16) (links : Nat) (ended : Ended) : System where
  globals := ended.globals
  check := ended.check
  links := Function.update s.links pd links
  buffer := Function.update s.buffer pd ended.machine.buffer

/-- IOMan opens descriptors that are free, and releases one that could not be opened. It lowers
the link count before it closes. -/
def step (host : Host) (s : System) : Action → System × List Service
  | .opens pd create asked =>
    if s.links pd ≠ 0 then (s, [])
    else
      let ended := bridge2 host s.globals (s.openCall pd create asked)
      (s.after pd (if ended.result.succeeds then 1 else 0) ended, ended.machine.services)
  | .dup pd =>
    if s.links pd = 0 then (s, [])
    else ({ s with links := Function.update s.links pd (s.links pd + 1) }, [])
  | .close pd asked =>
    if s.links pd = 0 then (s, [])
    else
      let ended := bridge2 host s.globals (s.closeCall pd asked)
      (s.after pd (s.links pd - 1) ended, ended.machine.services)

/-! ### What is meant -/

/-- The waiter has just the paths that have links. -/
def Matched (s : System) : Prop :=
  ∀ pd : UInt16, (s.globals.lmPaths pd.toNat).isSome ↔ 1 ≤ s.links pd

/-- The action closes the last link of the path that has its buffer at the address. -/
def LastClose (s : System) (action : Action) (address : UInt16) : Prop :=
  ∃ pd asked, action = .close pd asked ∧ s.links pd = 1 ∧ s.buffer pd = address

/-- After the action the waiter has the right paths, and it has given the buffer back, once, if it
is a last close, and no other memory. -/
structure Right (host : Host) (s : System) (action : Action) : Prop where
  matched : Matched (step host s action).1
  gives : ∀ address, LastClose s action address →
    (step host s action).2.count ⟨F_SRTMEM, address⟩ = 1
  keeps : ∀ address, ¬LastClose s action address →
    (step host s action).2.count ⟨F_SRTMEM, address⟩ = 0

/-- A path that is open is not closed, unless another link is left and the connection is lost. -/
def Spared (s : System) : Action → Prop
  | .close pd _ => s.links pd = 0 ∨ 2 ≤ s.links pd ∧ s.check ≠ 0
  | _ => True

/-! ### Memory that is asked for -/

theorem services_hyperVerbosity (m : Machine) :
    (hyperVerbosity 60 0 m).services = m.services :=
  (hyperVerbosity_kept (show 0 + 60 = 60 from rfl) m).2.1

theorem services_getBuffer {kernel : Kernel} {m : Machine} (fresh : m.services = [])
    (address : UInt16) : (getBuffer kernel m).2.services.count ⟨F_SRTMEM, address⟩ = 0 := by
  have requested : ∀ address', [(⟨F_SRQMEM, address'⟩ : Service)].count ⟨F_SRTMEM, address⟩ = 0 := by
    intro address'
    refine List.count_eq_zero.mpr fun member => ?_
    have same := congrArg Service.code (List.mem_singleton.mp member)
    exact absurd same (show F_SRTMEM ≠ F_SRQMEM by decide)
  unfold getBuffer
  split
  · rw [fresh]
    rfl
  · unfold os9SRqMem
    dsimp only
    by_cases refused : kernel.srqMem.1 ≠ 0
    · rw [if_pos refused, if_pos refused, fresh]
      rfl
    · rw [if_neg refused, if_neg (not_not_intro rfl), fresh]
      split
      · exact requested _
      · split
        · exact requested _
        · exact requested _

/-- A path operation gives nothing back. -/
theorem services_path {host : Host} {g : Globals} {call : Call}
    (path : call.op.toNat ∈ [1, 2, 3, 4, 5]) (address : UInt16) :
    (bridge2 host g call).machine.services.count ⟨F_SRTMEM, address⟩ = 0 := by
  have quiet : call.op.toNat ∉ [7, 9, 11] := by
    simp only [List.mem_cons, List.not_mem_nil, or_false] at path ⊢
    omega
  rw [machine_of_bare quiet, staged_path path, stagePath_eq]
  split
  · exact services_getBuffer rfl address
  · split
    · exact services_getBuffer rfl address
    · show (hyperVerbosity 60 0 _).services.count _ = 0
      rw [services_hyperVerbosity]
      exact services_getBuffer rfl address

/-! ### Opens -/

/-- LMOpen keeps a path if it succeeds, and changes no path if it does not. -/
theorem lmOpen_paths {g : Globals} (numbered : Numbered g.prevLemmaError) (host : Host) (pd : Nat)
    (regs : LMRegs) (mode : UInt8) (name : Text) (create : Bool) :
    ∃ reply, (lmOpen host g pd regs mode name create).reply = some reply ∧
      ((reply.status ≠ 0 ∧ (lmOpen host g pd regs mode name create).globals.lmPaths = g.lmPaths) ∨
        (reply.status = 0 ∧ ∃ p, (lmOpen host g pd regs mode name create).globals.lmPaths =
          Function.update g.lmPaths pd (some p))) := by
  have refused : ∀ effects, ∃ reply, (refuse g regs effects).reply = some reply ∧
      ((reply.status ≠ 0 ∧ (refuse g regs effects).globals.lmPaths = g.lmPaths) ∨
        (reply.status = 0 ∧ ∃ p, (refuse g regs effects).globals.lmPaths =
          Function.update g.lmPaths pd (some p))) := fun effects =>
    ⟨_, rfl, .inl ⟨(lemmaError_ne numbered).1, rfl⟩⟩
  have kept : ∀ (g' : Globals) p effects, g'.lmPaths = g.lmPaths →
      ∃ reply, (opened g' pd p regs name effects).reply = some reply ∧
        ((reply.status ≠ 0 ∧ (opened g' pd p regs name effects).globals.lmPaths = g.lmPaths) ∨
          (reply.status = 0 ∧ ∃ p', (opened g' pd p regs name effects).globals.lmPaths =
            Function.update g.lmPaths pd (some p'))) := by
    intro g' p effects same
    refine ⟨_, rfl, .inr ⟨rfl, p, ?_⟩⟩
    show Function.update g'.lmPaths pd (some p) = _
    rw [same]
  unfold lmOpen createPath openPath
  repeat' split
  all_goals first
    | exact refused _
    | exact kept _ _ _ rfl

/-- The waiter panics at a Create or an Open without a change, or it goes on with the name. -/
theorem outcome_open {host : Host} {g : Globals} {call : Call}
    (opens : call.op.toNat = 1 ∨ call.op.toNat = 2) (payload : Text) :
    call.outcome host g payload = panicked g [] ∨
      ∃ name create, call.outcome host g payload =
        lmOpen host g call.pd.toNat call.regs.words call.regs.words.ra name create := by
  have header : ¬(requestBody call.op call.regs payload).length < headerLen := by
    rw [length_requestBody]
    omega
  have unfolded : ∃ create, call.outcome host g payload =
      withName g (requestBody call.op call.regs payload) fun name =>
        lmOpen host g call.pd.toNat call.regs.words call.regs.words.ra name create := by
    unfold Call.outcome doLemMan
    dsimp only
    rw [if_neg header, show opOf (requestBody call.op call.regs payload) = call.op from rfl,
      regsOf_requestBody]
    rcases opens with is | is
    · rw [is]
      exact ⟨true, rfl⟩
    · rw [is]
      exact ⟨false, rfl⟩
  obtain ⟨create, same⟩ := unfolded
  rw [same]
  unfold withName
  split
  · exact .inl rfl
  · exact .inr ⟨_, create, rfl⟩

/-- The waiter has the path after an Open just if it had it before or the Open succeeds. -/
theorem paths_of_open {host : Host} {g : Globals} (numbered : Numbered g.prevLemmaError)
    {call : Call} (opens : call.op.toNat = 1 ∨ call.op.toNat = 2) :
    ((bridge2 host g call).result.succeeds = false ∧
      (bridge2 host g call).globals.lmPaths = g.lmPaths) ∨
    ((bridge2 host g call).result.succeeds = true ∧
      ∃ p, (bridge2 host g call).globals.lmPaths =
        Function.update g.lmPaths call.pd.toNat (some p)) := by
  have path : call.op.toNat ∈ [1, 2, 3, 4, 5] := by
    simp only [List.mem_cons, List.not_mem_nil, or_false]
    omega
  have quiet : call.op.toNat ∉ [7, 9, 11] := by
    simp only [List.mem_cons, List.not_mem_nil, or_false]
    omega
  cases staged : call.staged.2 with
  | stopped =>
    rw [bridge2_of_stopped staged]
    exact .inl ⟨rfl, rfl⟩
  | returned e =>
    have error : e ≠ 0 := by
      rw [staged_path path, stagePath_eq] at staged
      split at staged
      · rename_i refused
        exact Staged.returned.inj staged ▸ refused
      · split at staged
        · rename_i failed
          exact Staged.returned.inj staged ▸ failed
        · cases staged
    rw [bridge2_of_returned staged]
    exact .inl ⟨decide_eq_false error, rfl⟩
  | request payload =>
    by_cases up : call.check = 0
    · rw [bridge2_of_sent staged up]
      have bare : Bare (call.outcome host g payload) := bare_doLemMan _ _ _ _ quiet
      rcases outcome_open opens payload with panics | ⟨name, create, same⟩
      · rw [panics]
        exact .inl ⟨rfl, rfl⟩
      · obtain ⟨reply, replied, either⟩ := lmOpen_paths numbered host call.pd.toNat
          call.regs.words call.regs.words.ra name create
        rw [same] at bare ⊢
        rw [replied]
        dsimp only
        rw [settle_of_nil _ _ _ _ _ (bare reply replied)]
        rcases either with ⟨error, kept⟩ | ⟨okay, added⟩
        · exact .inl ⟨decide_eq_false error, kept⟩
        · exact .inr ⟨decide_eq_true okay, added⟩
    · rw [bridge2_of_down staged up]
      exact .inl ⟨decide_eq_false up, rfl⟩

/-! ### Closes -/

section

variable {host : Host} {s : System} {pd : UInt16} {asked : Asked}

theorem staged_close (more : 2 ≤ s.links pd) :
    (s.closeCall pd asked).staged = ((s.closeCall pd asked).machine, .request []) :=
  if_neg (show ¬s.links pd - 1 = 0 by omega)

/-- Another Close is sent, and the waiter forgets the path. -/
theorem paths_of_close (g : Globals) (more : 2 ≤ s.links pd) (up : s.check = 0) :
    (bridge2 host g (s.closeCall pd asked)).globals.lmPaths pd.toNat = none := by
  have outcome : (s.closeCall pd asked).outcome host g [] =
      lmClose g pd.toNat asked.regs.words := by
    unfold Call.outcome doLemMan
    dsimp only
    rw [if_neg (by rw [length_requestBody]; omega), regsOf_requestBody]
    rfl
  have gone : ((s.closeCall pd asked).outcome host g []).globals.lmPaths pd.toNat = none := by
    rw [outcome, lmClose]
    split
    · rename_i missing
      exact missing
    · exact Function.update_self ..
  rw [bridge2_of_sent (congrArg Prod.snd (staged_close more)) up]
  split
  · exact gone
  · exact gone

/-- Nothing that a Close is answered with gives memory back. -/
theorem services_close (g : Globals) (address : UInt16) :
    (bridge2 host g (s.closeCall pd asked)).machine.services.count ⟨F_SRTMEM, address⟩ = 0 := by
  have quiet : (s.closeCall pd asked).op.toNat ∉ [7, 9, 11] := show (13 : UInt8).toNat ∉ _ by decide
  have plain : (s.closeCall pd asked).op.toNat ∉ [1, 2, 3, 4, 5, 8, 10] :=
    show (13 : UInt8).toNat ∉ _ by decide
  rw [machine_of_bare quiet, (staged_plain plain).1]
  rfl

/-! ### Steps -/

theorem numbered_bridge2 (host : Host) {g : Globals} (numbered : Numbered g.prevLemmaError)
    (call : Call) : Numbered (bridge2 host g call).globals.prevLemmaError := by
  cases staged : call.staged.2 with
  | returned e =>
    rw [bridge2_of_returned staged]
    exact numbered
  | stopped =>
    rw [bridge2_of_stopped staged]
    exact numbered
  | request payload =>
    by_cases up : call.check = 0
    · have after : Numbered (call.outcome host g payload).globals.prevLemmaError :=
        (change_doLemMan host g _ _).numbered numbered
      rw [bridge2_of_sent staged up]
      split
      · exact after
      · exact after
    · rw [bridge2_of_down staged up]
      exact numbered

theorem numbered_step (numbered : Numbered s.globals.prevLemmaError) (action : Action) :
    Numbered (step host s action).1.globals.prevLemmaError := by
  cases action with
  | opens pd create asked =>
    rw [step]
    split
    · exact numbered
    · exact numbered_bridge2 host numbered _
  | dup pd =>
    rw [step]
    split
    · exact numbered
    · exact numbered
  | close pd asked =>
    rw [step]
    split
    · exact numbered
    · exact numbered_bridge2 host numbered _

/-- What changes at one descriptor on both sides alike keeps the paths matched. -/
theorem Matched.update (matched : Matched s) {g : Globals} {path : Option LMPath} {count : Nat}
    (paths : g.lmPaths = Function.update s.globals.lmPaths pd.toNat path)
    (alike : path.isSome ↔ 1 ≤ count) (check : UInt8) (buffer : UInt16 → UInt16) :
    Matched ⟨g, check, Function.update s.links pd count, buffer⟩ := by
  intro other
  show (g.lmPaths other.toNat).isSome ↔ 1 ≤ Function.update s.links pd count other
  rw [paths]
  by_cases same : other = pd
  · rw [same, Function.update_self, Function.update_self]
    exact alike
  · rw [Function.update_of_ne same,
      Function.update_of_ne fun equal => same (UInt16.toNat.inj equal)]
    exact matched other

theorem not_lastClose_opens (create : Bool) (address : UInt16) :
    ¬LastClose s (.opens pd create asked) address := by
  rintro ⟨_, _, same, -⟩
  cases same

theorem not_lastClose_dup (address : UInt16) : ¬LastClose s (.dup pd) address := by
  rintro ⟨_, _, same, -⟩
  cases same

theorem right_opens (matched : Matched s) (numbered : Numbered s.globals.prevLemmaError)
    (create : Bool) : Right host s (.opens pd create asked) := by
  refine ⟨?_, fun address last => (not_lastClose_opens create address last).elim,
    fun address _ => ?_⟩
  · rw [step]
    split
    · exact matched
    · rename_i free
      have unlinked : s.links pd = 0 := Classical.not_not.mp free
      have opens : (s.openCall pd create asked).op.toNat = 1 ∨
          (s.openCall pd create asked).op.toNat = 2 := by
        cases create
        · exact .inr rfl
        · exact .inl rfl
      rcases paths_of_open numbered opens with ⟨fails, kept⟩ | ⟨okay, p, added⟩
      · have absent : s.globals.lmPaths pd.toNat = none := by
          rw [← Option.not_isSome_iff_eq_none, matched pd]
          omega
        have unlinkedStill : (none : Option LMPath).isSome ↔ 1 ≤ if (bridge2 host s.globals
            (s.openCall pd create asked)).result.succeeds then 1 else 0 := by
          rw [fails]
          decide
        refine matched.update (kept.trans ?_) unlinkedStill _ _
        exact (Function.update_eq_self_iff.mpr absent.symm).symm
      · have linked : (some p).isSome ↔ 1 ≤ if (bridge2 host s.globals
            (s.openCall pd create asked)).result.succeeds then 1 else 0 := by
          rw [okay]
          exact iff_of_true rfl (Nat.le_refl 1)
        exact matched.update added linked _ _
  · rw [step]
    split
    · rfl
    · refine services_path ?_ address
      cases create
      · exact show (2 : UInt8).toNat ∈ _ by decide
      · exact show (1 : UInt8).toNat ∈ _ by decide

theorem right_dup (matched : Matched s) : Right host s (.dup pd) := by
  refine ⟨?_, fun address last => (not_lastClose_dup address last).elim, fun address _ => ?_⟩
  · rw [step]
    split
    · exact matched
    · rename_i linked
      refine matched.update (Function.update_eq_self _ _).symm ?_ _ _
      rw [matched pd]
      omega
  · rw [step]
    split
    · rfl
    · rfl

/-- A Close is right just if the path is not open, or it keeps another link and the waiter cannot be
told. -/
theorem right_close_iff (matched : Matched s) :
    Right host s (.close pd asked) ↔ Spared s (.close pd asked) := by
  by_cases closed : s.links pd = 0
  · refine iff_of_true ⟨?_, ?_, ?_⟩ (.inl closed)
    · rw [step, if_pos closed]
      exact matched
    · rintro address ⟨_, _, same, last, -⟩
      cases same
      omega
    · intro address _
      rw [step, if_pos closed]
      rfl
  have stepped : step host s (.close pd asked) =
      (s.after pd (s.links pd - 1) (bridge2 host s.globals (s.closeCall pd asked)),
        (bridge2 host s.globals (s.closeCall pd asked)).machine.services) := by
    rw [step, if_neg closed]
  by_cases last : s.links pd = 1
  · refine iff_of_false (fun right => ?_) (fun spared => ?_)
    · have none := right.gives (s.buffer pd) ⟨pd, asked, rfl, last, rfl⟩
      rw [stepped] at none
      dsimp only at none
      rw [services_close] at none
      cases none
    · rcases spared with unlinked | more
      · exact closed unlinked
      · omega
  have more : 2 ≤ s.links pd := by omega
  by_cases up : s.check = 0
  · refine iff_of_false (fun right => ?_) (fun spared => ?_)
    · have kept := (right.matched pd).mpr (by
        rw [stepped]
        show 1 ≤ Function.update s.links pd (s.links pd - 1) pd
        rw [Function.update_self]
        omega)
      rw [stepped] at kept
      have gone := @paths_of_close host s pd asked s.globals more up
      rw [show (s.after pd (s.links pd - 1)
        (bridge2 host s.globals (s.closeCall pd asked))).globals.lmPaths pd.toNat = none from gone]
        at kept
      cases kept
    · exact spared.elim closed fun both => both.2 up
  · refine iff_of_true ⟨?_, ?_, ?_⟩ (.inr ⟨more, up⟩)
    · rw [stepped, bridge2_of_down (congrArg Prod.snd (staged_close more)) up]
      refine matched.update (Function.update_eq_self _ _).symm ?_ _ _
      rw [matched pd]
      omega
    · rintro address ⟨_, _, same, only, -⟩
      cases same
      omega
    · intro address _
      rw [stepped]
      exact services_close s.globals address

theorem right_iff_spared (matched : Matched s) (numbered : Numbered s.globals.prevLemmaError)
    (action : Action) : Right host s action ↔ Spared s action := by
  cases action with
  | opens pd create asked => exact iff_of_true (right_opens matched numbered create) trivial
  | dup pd => exact iff_of_true (right_dup matched) trivial
  | close pd asked => exact right_close_iff matched

end

/-! ### The result -/

/-- **Lifetimes.** In a run of Opens, Dups and Closes, the waiter has just the paths that have
links, and each buffer is given back once and at the last Close, just when every Close is spared. -/
theorem right_iff_always_spared (host : Host) (disk : Disk.Disk) (actions : List Action) :
    Always (step host) (Right host) (.start disk) actions ↔
      Always (step host) Spared (.start disk) actions := by
  refine always_congr (fun s => Matched s ∧ Numbered s.globals.prevLemmaError)
    (fun s action invariant => right_iff_spared invariant.1 invariant.2 action)
    (fun s action invariant right => ⟨right.matched, numbered_step invariant.2 action⟩) ?_ actions
  refine ⟨fun pd => ?_, show Numbered (lemmaErrorMin - 1) by unfold Numbered; decide⟩
  show (none : Option LMPath).isSome ↔ 1 ≤ 0
  decide

/-! ### One path -/

/-- The name `a` is at address 0x4000, and the kernel finds memory at 0x2000. -/
def askedA : Asked where
  regs := ⟨0, 1, 0, 0, 0x4000, 0, 0, 0⟩
  memory := fun _ a => if a = 0x4000 then 97 else CR
  kernel := ⟨(0, 256, 0x2000), 0, 0, 0⟩
  info := noInfo

/-- An Open and a Close. -/
def openAndClose : List Action := [.opens 0x7000 false askedA, .close 0x7000 askedA]

/-- The waiter still has the path. -/
theorem not_right_openAndClose :
    ¬Always (step smallHost) (Right smallHost) (.start (smallDisk hello)) openAndClose := by
  intro always
  have matched := always.2.1.matched 0x7000
  revert matched
  decide +kernel

end Frobio.Lemmanc
