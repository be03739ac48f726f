/-
This file says once what a request can do: `Change` to the globals, and `Touches` to
the files of the host. What is known of all requests is derived from these two and
not from the handlers.
-/

import Frobio.LemMan.Request

namespace Frobio.LemMan

open Coms SlashPath Disk Positional

@[simp] theorem setPath_self (g : Globals) (pd : Nat) (p : Option LMPath) :
    (g.setPath pd p).lmPaths pd = p :=
  Function.update_self ..

theorem setPath_of_ne {pd other : Nat} (apart : other ≠ pd) (g : Globals) (p : Option LMPath) :
    (g.setPath pd p).lmPaths other = g.lmPaths other :=
  Function.update_of_ne apart ..

/-! ### What a request touches -/

/-- The paths a request may hand to the host: the path of a name under the flag's directory, the
name of a Delete as it is, and what an inode was listed as. -/
inductive Touches (host : Host) (g : Globals) (request : Request) : Text → Prop
  | joined (name path : Text) (joined : jname host name = some path) : Touches host g request path
  | deleted (name : Text) (deletes : (opOf request.input).toNat = 5)
      (named : nameOf request.input = some name) : Touches host g request name
  | inode (i : Nat) (pathName : Text) (listed : g.inodes i = some pathName) :
      Touches host g request (join [host.lemmanFs, pathName])

/-! ### What a request does to the globals -/

/-- The request is one about an open path. -/
def AboutPath (request : Request) : Prop := (opOf request.input).toNat ∈ [6, 7, 8, 9, 10, 11, 13]

instance (request : Request) : Decidable (AboutPath request) :=
  inferInstanceAs (Decidable (_ ∈ _))

/-- The globals after a request, and its effects. -/
inductive Change (host : Host) (g : Globals) (request : Request) (pd : Nat) :
    Globals → List Effect → Prop
  | same (effects : List Effect)
      (stats : ∀ effect ∈ effects, ∃ path, effect = .stat path ∧ Touches host g request path) :
      Change host g request pd g effects
  | refused (effects : List Effect)
      (touches : ∀ effect ∈ effects, ∀ path ∈ effect.path, Touches host g request path) :
      Change host g request pd { g with prevLemmaError := lemmaError g.prevLemmaError }
        (effects ++ [.lemmaError (lemmaError g.prevLemmaError)])
  | moved (p : LMPath) (offset : Nat) (about : AboutPath request) (found : g.lmPaths pd = some p) :
      Change host g request pd (g.setPath pd (some { p with offset })) []
  | wrote (p : LMPath) (file : FileId) (data : Text) (offset : Nat) (about : AboutPath request)
      (found : g.lmPaths pd = some p) (handle : p.osFile = some (file, true)) :
      Change host g request pd
        ({ g with disk := g.disk.write file p.offset data }.setPath pd (some { p with offset })) []
  | closed (about : AboutPath request) : Change host g request pd (g.setPath pd none) []
  | removed (name : Text) (disk : Disk) (deletes : (opOf request.input).toNat = 5)
      (named : nameOf request.input = some name) (removed : osRemove host g.disk name = some disk) :
      Change host g request pd { g with disk } [.remove name]
  | created (name path : Text) (place : Place) (file : FileId) (disk : Disk) (p : LMPath)
      (joined : jname host name = some path)
      (found : g.disk.find host.current path = some place)
      (created : g.disk.create place = some (file, disk)) (handle : p.osFile = some (file, true)) :
      Change host g request pd ({ g with disk }.setPath pd (some p)) [.create path]
  | listed (name path : Text) (place : Place) (entries : List Text) (p : LMPath)
      (joined : jname host name = some path) (found : g.disk.find host.current path = some place)
      (read : g.disk.readDir place = some entries) (dir : p.isDir = true)
      (handle : p.osFile = none) :
      Change host g request pd
        ({ g with
            inodes := (listDir g (cleanName name) entries).inodes
            nextInodeVar := (listDir g (cleanName name) entries).nextInodeVar }.setPath pd (some p))
        [.stat path, .readDir path]
  | opened (name path : Text) (place : Place) (file : FileId) (p : LMPath)
      (joined : jname host name = some path) (found : g.disk.find host.current path = some place)
      (opened : g.disk.openFile place = some file) (handle : p.osFile = some (file, false)) :
      Change host g request pd (g.setPath pd (some p)) [.stat path, .openFile path]

section

variable {host : Host} {g : Globals} {request : Request} {pd : Nat} {regs : LMRegs}

theorem Change.unchanged : Change host g request pd g [] :=
  .same [] fun _ member => (List.not_mem_nil member).elim

/-- A refusal before the host is asked anything. -/
theorem Change.refused_quietly : Change host g request pd
    { g with prevLemmaError := lemmaError g.prevLemmaError }
    [.lemmaError (lemmaError g.prevLemmaError)] :=
  .refused [] fun _ member => (List.not_mem_nil member).elim

/-- A refusal after calls on one path. -/
theorem Change.refused_at {path : Text} (touches : Touches host g request path)
    (effects : List Effect) (all : ∀ effect ∈ effects, effect.path = some path) :
    Change host g request pd { g with prevLemmaError := lemmaError g.prevLemmaError }
      (effects ++ [.lemmaError (lemmaError g.prevLemmaError)]) := by
  refine .refused effects fun effect member other at_path => ?_
  rw [all effect member] at at_path
  exact Option.some_inj.mp at_path ▸ touches

theorem change_fdInf (info : FileInfo) :
    Change host g request pd (fdInf host g info regs).globals
      (fdInf host g info regs).effects := by
  unfold fdInf
  dsimp only
  split
  · exact .unchanged
  · rename_i pathName listed
    have stats : ∀ effect ∈ [Effect.stat (join [host.lemmanFs, pathName])], ∃ path,
        effect = .stat path ∧ Touches host g request path := by
      intro effect member
      refine ⟨_, List.mem_singleton.mp member, ?_⟩
      split at listed
      · exact .inode _ pathName listed
      · cases listed
    split
    · exact .same _ stats
    · split
      · exact .same _ stats
      · split
        · exact .same _ stats
        · exact .same _ stats

theorem change_lmGetStt (info : FileInfo) :
    Change host g request pd (lmGetStt host g pd info regs).globals
      (lmGetStt host g pd info regs).effects := by
  unfold lmGetStt
  split
  · exact .unchanged
  · split
    · exact change_fdInf info
    · exact .unchanged

theorem change_lmDelete {name : Text} (deletes : (opOf request.input).toNat = 5)
    (named : nameOf request.input = some name) :
    Change host g request pd (lmDelete host g regs name).globals
      (lmDelete host g regs name).effects := by
  unfold lmDelete
  split
  · exact .refused_at (.deleted name deletes named) [.remove name] (by simp [Effect.path])
  · rename_i disk removed
    exact .removed name disk deletes named removed

theorem change_lmSeek (about : AboutPath request) :
    Change host g request pd (lmSeek g pd regs).globals (lmSeek g pd regs).effects := by
  unfold lmSeek
  split
  · exact .unchanged
  · rename_i p found
    exact .moved p _ about found

theorem change_lmWrite (about : AboutPath request) (payIn : Text) :
    Change host g request pd (lmWrite g pd regs payIn).globals
      (lmWrite g pd regs payIn).effects := by
  unfold lmWrite
  split
  · exact .unchanged
  · rename_i p found
    split
    · exact .refused_quietly
    · split
      · exact .refused_quietly
      · split
        · exact .refused_quietly
        · split
          · exact .unchanged
          · exact .refused_quietly
          · rename_i file handle
            exact .wrote p file payIn _ about found handle

theorem change_lmRead (about : AboutPath request) (linely : Bool) :
    Change host g request pd (lmRead g pd regs linely).globals
      (lmRead g pd regs linely).effects := by
  unfold lmRead
  split
  · exact .unchanged
  · rename_i p found
    split
    · exact .unchanged
    · split
      · exact .refused_quietly
      · exact .moved p _ about found

theorem change_lmClose (about : AboutPath request) :
    Change host g request pd (lmClose g pd regs).globals (lmClose g pd regs).effects := by
  unfold lmClose
  split
  · exact .unchanged
  · exact .closed about

section

variable {mode : UInt8} {name path : Text}

theorem change_createPath (joined : jname host name = some path) :
    Change host g request pd (createPath host g pd regs mode name path).globals
      (createPath host g pd regs mode name path).effects := by
  unfold createPath
  split
  · exact .refused_quietly
  · split
    · exact .refused_at (.joined name path joined) [.create path] (by simp [Effect.path])
    · rename_i file disk made
      obtain ⟨place, found, created⟩ := Option.bind_eq_some_iff.mp made
      exact .created name path place file disk _ joined found created rfl

theorem change_openPath (joined : jname host name = some path) :
    Change host g request pd (openPath host g pd regs mode name path).globals
      (openPath host g pd regs mode name path).effects := by
  have refused : ∀ effects : List Effect, (∀ effect ∈ effects, effect.path = some path) →
      Change host g request pd { g with prevLemmaError := lemmaError g.prevLemmaError }
        (effects ++ [.lemmaError (lemmaError g.prevLemmaError)]) :=
    fun effects => .refused_at (.joined name path joined) effects
  unfold openPath
  split
  · exact refused [.stat path] (by simp [Effect.path])
  · rename_i place found
    split
    · exact refused [.stat path] (by simp [Effect.path])
    · split
      · exact refused [.stat path, .readDir path] (by simp [Effect.path])
      · rename_i entries read
        exact .listed name path place entries _ joined found read rfl rfl
    · split
      · exact refused [.stat path, .openFile path] (by simp [Effect.path])
      · rename_i file opened
        exact .opened name path place file _ joined found opened rfl

theorem change_lmOpen (mode : UInt8) (name : Text) (create : Bool) :
    Change host g request pd (lmOpen host g pd regs mode name create).globals
      (lmOpen host g pd regs mode name create).effects := by
  unfold lmOpen
  split
  · exact .refused_quietly
  · rename_i path joined
    split
    · exact change_createPath joined
    · exact change_openPath joined

end

theorem change_withName {handle : Text → Outcome}
    (each : ∀ name, nameOf request.input = some name →
      Change host g request pd (handle name).globals (handle name).effects) :
    Change host g request pd (withName g request.input handle).globals
      (withName g request.input handle).effects := by
  unfold withName
  split
  · exact .unchanged
  · rename_i name named
    exact each name named

theorem change_doLemMan (host : Host) (g : Globals) (request : Request) (pd : Nat) :
    Change host g request pd (doLemMan host g request pd).globals
      (doLemMan host g request pd).effects := by
  have about : ∀ {op : Nat}, (opOf request.input).toNat = op →
      op ∈ [6, 7, 8, 9, 10, 11, 13] → AboutPath request :=
    fun is member => by rw [AboutPath, is]; exact member
  unfold doLemMan
  dsimp only
  split
  · exact .unchanged
  · split
    · exact change_withName fun name _ => change_lmOpen _ name true
    · exact change_withName fun name _ => change_lmOpen _ name false
    · exact change_withName fun _ _ => .refused_quietly
    · exact change_withName fun _ _ => .unchanged
    · rename_i deletes
      exact change_withName fun _ named => change_lmDelete deletes named
    · rename_i op
      exact change_lmSeek (about op (by decide))
    · rename_i op
      exact change_lmRead (about op (by decide)) false
    · rename_i op
      exact change_lmWrite (about op (by decide)) _
    · rename_i op
      exact change_lmRead (about op (by decide)) true
    · rename_i op
      exact change_lmWrite (about op (by decide)) _
    · exact change_lmGetStt _
    · rename_i op
      exact change_lmClose (about op (by decide))
    · split
      · exact .unchanged
      · exact .refused_quietly

end

/-- A request hands the host no paths but these. -/
theorem Change.touches {host : Host} {g next : Globals} {request : Request} {pd : Nat}
    {effects : List Effect} (change : Change host g request pd next effects) :
    ∀ effect ∈ effects, ∀ path ∈ effect.path, Touches host g request path := by
  have only : ∀ {path : Text} {effects : List Effect}, Touches host g request path →
      (∀ effect ∈ effects, effect.path = some path) →
        ∀ effect ∈ effects, ∀ other ∈ effect.path, Touches host g request other := by
    intro path effects touches all effect member other at_path
    rw [all effect member] at at_path
    exact Option.some_inj.mp at_path ▸ touches
  cases change with
  | same effects stats =>
    intro effect member path at_path
    obtain ⟨other, rfl, touches⟩ := stats effect member
    exact Option.some_inj.mp at_path ▸ touches
  | refused effects touches =>
    intro effect member path at_path
    rcases List.mem_append.mp member with before | last
    · exact touches effect before path at_path
    · rw [List.mem_singleton.mp last] at at_path
      cases at_path
  | moved | wrote | closed => exact fun _ member => (List.not_mem_nil member).elim
  | removed name disk deletes named => exact only (.deleted name deletes named) (by simp [Effect.path])
  | created name path _ _ _ _ joined => exact only (.joined name path joined) (by simp [Effect.path])
  | listed name path _ _ _ joined => exact only (.joined name path joined) (by simp [Effect.path])
  | opened name path _ _ _ joined => exact only (.joined name path joined) (by simp [Effect.path])

/-! ### The numbers of errors -/

/-- The number of the last error is one that `LemmaError` gives out, or the one before. -/
def Numbered (prevLemmaError : UInt8) : Prop :=
  lemmaErrorMin - 1 ≤ prevLemmaError ∧ prevLemmaError ≤ lemmaErrorMax

theorem lemmaError_bounds {prev : UInt8} (numbered : Numbered prev) :
    lemmaErrorMin ≤ lemmaError prev ∧ lemmaError prev ≤ lemmaErrorMax := by
  obtain ⟨above, below⟩ := numbered
  have above' : 79 ≤ prev.toNat := above
  have below' : prev.toNat ≤ 99 := below
  have next : (prev + 1).toNat = prev.toNat + 1 := by
    rw [UInt8.toNat_add]
    show (prev.toNat + 1) % 2 ^ 8 = _
    omega
  unfold lemmaError
  split
  · decide
  · rename_i within
    refine ⟨?_, UInt8.not_lt.mp within⟩
    rw [UInt8.le_iff_toNat_le, next]
    show 80 ≤ _
    omega

theorem numbered_lemmaError {prev : UInt8} (numbered : Numbered prev) :
    Numbered (lemmaError prev) := by
  obtain ⟨above, below⟩ := lemmaError_bounds numbered
  exact ⟨UInt8.le_trans (by decide) above, below⟩

theorem Change.numbered {host : Host} {g next : Globals} {request : Request} {pd : Nat}
    {effects : List Effect} (change : Change host g request pd next effects)
    (before : Numbered g.prevLemmaError) : Numbered next.prevLemmaError := by
  cases change with
  | refused => exact numbered_lemmaError before
  | _ => exact before

/-- The waiter after requests of any clients, each with its path descriptor. -/
def served (host : Host) (disk : Disk) (history : List (Request × Nat)) : Globals :=
  history.foldl (fun g entry => (doLemMan host g entry.1 entry.2).globals) (.start disk)

/-- What the waiter starts with, and every request keeps, is always there. -/
theorem invariant_served (host : Host) (disk : Disk) (invariant : Globals → Prop)
    (start : invariant (.start disk))
    (kept : ∀ g request pd, invariant g → invariant (doLemMan host g request pd).globals)
    (history : List (Request × Nat)) : invariant (served host disk history) := by
  unfold served
  induction history using List.reverseRecOn with
  | nil => exact start
  | append_singleton before entry inductionHypothesis =>
    rw [List.foldl_append]
    exact kept _ _ _ inductionHypothesis

theorem numbered_served (host : Host) (disk : Disk) (history : List (Request × Nat)) :
    Numbered (served host disk history).prevLemmaError :=
  invariant_served host disk (fun g => Numbered g.prevLemmaError)
    (show Numbered (lemmaErrorMin - 1) by unfold Numbered; decide)
    (fun g request pd before => (change_doLemMan host g request pd).numbered before) history

end Frobio.LemMan
