/-
This file is about the sessions of one waiter: what each is sent, and what it would
be sent if no other session made a request.

A session that goes on alone shadows the run of all. The two waiters are twins
where the session can see it (`Twin`), and what another session does in between
does not show: it stays with its own files, and with paths it has given itself.
`Isolated` is the condition for that, on every step. The waiter itself does not see
to it: its paths, the number of the last error and its inodes are variables of the
package that all sessions share.
-/

import Frobio.Lib.Run
import Frobio.LemMan.File
import Frobio.LemMan.Twin

namespace Frobio.LemMan

open Coms SlashPath Disk Run

/-! ### What a change leaves alone -/

section

variable {host : Host} {g next : Globals} {request : Request} {pd : Nat} {effects : List Effect}

theorem gives_refused (effects : List Effect) (errnum : UInt8) :
    gives (effects ++ [.lemmaError errnum]) = false ∧
      complains (effects ++ [.lemmaError errnum]) = true ∧
      lists (effects ++ [.lemmaError errnum]) = false := by
  rw [gives, complains, lists, List.getLast?_concat]
  exact ⟨rfl, rfl, rfl⟩

theorem Change.elsewhere (change : Change host g request pd next effects) {other : Nat}
    (apart : other ≠ pd) : next.lmPaths other = g.lmPaths other := by
  cases change with
  | same | refused | removed => rfl
  | moved | wrote | closed | created | listed | opened => exact setPath_of_ne apart ..

theorem Change.lmPaths_of_not_about (change : Change host g request pd next effects)
    (about : ¬AboutPath request) (gives : gives effects = false) : next.lmPaths = g.lmPaths := by
  cases change with
  | same | refused | removed => rfl
  | moved _ _ here | wrote _ _ _ _ here | closed here => exact absurd here about
  | created | listed | opened => cases gives

/-- Where there is no path, there is none after a request that gives none. -/
theorem Change.none_of_none (change : Change host g request pd next effects)
    (none : g.lmPaths pd = none) (gives : gives effects = false) : next.lmPaths pd = .none := by
  cases change with
  | same | refused | removed => exact none
  | moved p _ _ found | wrote p _ _ _ _ found =>
    rw [none] at found
    cases found
  | closed => exact setPath_self ..
  | created | listed | opened => cases gives

theorem Change.error (change : Change host g request pd next effects)
    (quiet : complains effects = false) : next.prevLemmaError = g.prevLemmaError := by
  cases change with
  | refused effects =>
    rw [(gives_refused ..).2.1] at quiet
    cases quiet
  | _ => rfl

theorem Change.inode (change : Change host g request pd next effects)
    (quiet : lists effects = false) :
    next.inodes = g.inodes ∧ next.nextInodeVar = g.nextInodeVar := by
  cases change with
  | listed => cases quiet
  | _ => exact ⟨rfl, rfl⟩

/-- The path that is there after a request was there before with the same file, or has a file at a
path the request has handed to the host. -/
theorem Change.handle (change : Change host g request pd next effects) {p : LMPath}
    (found : next.lmPaths pd = some p) :
    (∃ q, g.lmPaths pd = some q ∧ p.osFile = q.osFile ∧ gives effects = false) ∨
      (gives effects = true ∧ ∀ handle ∈ p.osFile, ∃ effect ∈ effects, ∃ path ∈ effect.path,
        resolve host.current path = handle.1.place) := by
  cases change with
  | same effects stats =>
    refine .inl ⟨p, found, rfl, ?_⟩
    rw [gives]
    cases last : effects.getLast? with
    | none => rfl
    | some effect =>
      obtain ⟨path, rfl, -⟩ := stats effect (List.mem_of_getLast? last)
      rfl
  | refused effects => exact .inl ⟨p, found, rfl, (gives_refused ..).1⟩
  | removed => exact .inl ⟨p, found, rfl, rfl⟩
  | moved q _ _ before | wrote q _ _ _ _ before =>
    rw [setPath_self, Option.some_inj] at found
    exact .inl ⟨q, before, found ▸ rfl, rfl⟩
  | closed =>
    rw [setPath_self] at found
    cases found
  | created name path place file disk q joined at_place created handle =>
    rw [setPath_self, Option.some_inj] at found
    refine .inr ⟨rfl, fun opened isOpen => ⟨_, List.mem_cons_self, path, rfl, ?_⟩⟩
    rw [← found, handle] at isOpen
    obtain rfl := Option.some_inj.mp isOpen
    exact (resolve_of_find at_place).trans (place_of_create created).symm
  | listed name path place entries q joined at_place read dir handle =>
    rw [setPath_self, Option.some_inj] at found
    refine .inr ⟨rfl, fun opened isOpen => ?_⟩
    rw [← found, handle] at isOpen
    cases isOpen
  | opened name path place file q joined at_place isFile handle =>
    rw [setPath_self, Option.some_inj] at found
    refine .inr ⟨rfl, fun opened isOpen => ⟨_, List.mem_cons_self, path, rfl, ?_⟩⟩
    rw [← found, handle] at isOpen
    obtain rfl := Option.some_inj.mp isOpen
    rw [resolve_of_find at_place, ← (openFile_eq_some.mp isFile).2]
    rfl

/-- A request about files far from some places leaves the disk there as it is. -/
theorem Change.disk_far (change : Change host g request pd next effects) {homes : List Place}
    (handles : AboutPath request → ∀ p ∈ g.lmPaths pd, ∀ handle ∈ p.osFile,
      near homes handle.1.place = false)
    (far : ∀ effect ∈ effects, ∀ path ∈ effect.path,
      near homes (resolve host.current path) = false) : Agree homes next.disk g.disk := by
  cases change with
  | wrote p file data offset about found handle =>
    exact .write_far (handles about p found (file, true) handle) g.disk p.offset data
  | removed name disk deletes named removed =>
    have far := far (.remove name) List.mem_cons_self name rfl
    unfold osRemove at removed
    split at removed
    · cases removed
    · obtain ⟨place, found, removed⟩ := Option.bind_eq_some_iff.mp removed
      rw [resolve_of_find found] at far
      exact .remove_far far removed
  | created name path place file disk q joined found created handle =>
    have far := far (.create path) List.mem_cons_self path rfl
    rw [resolve_of_find found] at far
    exact .create_far far created
  | _ => exact .refl homes g.disk

end

/-! ### Sessions -/

structure Action (Session : Type) where
  session : Session
  request : Request
  pd : Nat

/-- The waiter, and what it has sent to each session. Who has given a path, who has got a
`LemmaError` and who has listed a directory is kept for the condition; nothing else reads it. -/
structure System (Session : Type) where
  globals : Globals
  ended : Session → Bool
  replies : Session → List Text
  giver : Nat → Option Session
  complainers : List Session
  listers : List Session

section

variable {Session : Type} [DecidableEq Session]

def System.start (disk : Disk) : System Session where
  globals := .start disk
  ended := fun _ => false
  replies := fun _ => []
  giver := fun _ => none
  complainers := []
  listers := []

/-- The reply is sent; a panic ends the session. -/
def System.after (s : System Session) (action : Action Session) (outcome : Outcome) :
    System Session where
  globals := outcome.globals
  ended := Function.update s.ended action.session outcome.reply.isNone
  replies := Function.update s.replies action.session
    (s.replies action.session ++ (outcome.reply.map Reply.bytes).toList)
  giver :=
    if gives outcome.effects then Function.update s.giver action.pd (some action.session)
    else s.giver
  complainers :=
    if complains outcome.effects then action.session :: s.complainers else s.complainers
  listers := if lists outcome.effects then action.session :: s.listers else s.listers

def step (host : Host) (s : System Session) (action : Action Session) : Option (System Session) :=
  if s.ended action.session then none
  else some (s.after action (doLemMan host s.globals action.request action.pd))

/-! ### The condition -/

/-- No place of a session is a place of another one, or above it. -/
def Apart (homes : Session → List Place) : Prop :=
  ∀ session other, session ≠ other → ∀ home ∈ homes session, near (homes other) home = false

/-- The request is about the session's own files, and if it is about an open path or gives one, then
no path another session has given is in its way. A `LemmaError` comes only where no other session
has got one, and inodes are given or asked about only where no other session was given any. -/
def Isolated (host : Host) (homes : Session → List Place) (s : System Session)
    (action : Action Session) : Prop :=
  Needs host (homes action.session) action.request
    ((s.globals.lmPaths action.pd).isSome = true → s.giver action.pd = some action.session)
    (∀ other ∈ s.complainers, other = action.session)
    (∀ other ∈ s.listers, other = action.session)
    (doLemMan host s.globals action.request action.pd).effects

instance (host : Host) (homes : Session → List Place) (s : System Session)
    (action : Action Session) : Decidable (Isolated host homes s action) :=
  inferInstanceAs (Decidable (Needs ..))

/-! ### Whose the paths are -/

/-- Every path was given by a session, and its file is one of this session's. -/
def Owned (homes : Session → List Place) (s : System Session) : Prop :=
  ∀ pd p, s.globals.lmPaths pd = some p → ∃ session, s.giver pd = some session ∧
    ∀ handle ∈ p.osFile, ∃ home ∈ homes session, home <+: handle.1.place

variable {host : Host} {homes : Session → List Place} {s t : System Session}
  {action : Action Session} {session : Session}

theorem giver_of_ne {outcome : Outcome} {other : Nat} (apart : other ≠ action.pd) :
    (s.after action outcome).giver other = s.giver other := by
  unfold System.after
  dsimp only
  split
  · exact Function.update_of_ne apart ..
  · rfl

theorem giver_of_gives {outcome : Outcome} (given : gives outcome.effects = true) :
    (s.after action outcome).giver action.pd = some action.session := by
  unfold System.after
  dsimp only
  rw [if_pos given, Function.update_self]

theorem giver_of_not_gives {outcome : Outcome} (quiet : gives outcome.effects = false) :
    (s.after action outcome).giver = s.giver := by
  unfold System.after
  dsimp only
  rw [if_neg (by rw [quiet]; exact Bool.false_ne_true)]

theorem Owned.after (owned : Owned homes s) (isolated : Isolated host homes s action) :
    Owned homes (s.after action (doLemMan host s.globals action.request action.pd)) := by
  have change := change_doLemMan host s.globals action.request action.pd
  intro pd p found
  by_cases here : pd = action.pd
  · subst here
    rcases change.handle found with ⟨q, before, same, quiet⟩ | ⟨given, files⟩
    · rw [giver_of_not_gives quiet, same]
      exact owned _ q before
    · refine ⟨action.session, giver_of_gives given, fun handle isOpen => ?_⟩
      obtain ⟨effect, member, path, at_path, leads⟩ := files handle isOpen
      rw [← leads]
      exact (isolated.home effect member path at_path).1
  · rw [giver_of_ne here]
    exact owned pd p ((change.elsewhere here).symm.trans found)

/-- What is below a place of another session is far from the session's places. -/
theorem Apart.far (apart : Apart homes) {other : Session} (ne : other ≠ session) {place : Place}
    (below : ∃ home ∈ homes other, home <+: place) : near (homes session) place = false := by
  obtain ⟨home, member, below⟩ := below
  rw [Bool.eq_false_iff]
  intro here
  obtain ⟨home', member', comparable⟩ := near_eq_true.mp here
  have far := apart other session ne home member
  rw [Bool.eq_false_iff] at far
  refine far (near_eq_true.mpr ⟨home', member', ?_⟩)
  rcases comparable with above | below'
  · exact .inl (below.trans above)
  · exact List.prefix_or_prefix_of_prefix below below'

/-! ### Alone -/

/-- The session can see no difference between the run of all and its run alone. -/
structure Shadows (homes : Session → List Place) (session : Session) (s t : System Session) :
    Prop where
  owned : Owned homes s
  path : ∀ pd, t.globals.lmPaths pd =
    if s.giver pd = some session then s.globals.lmPaths pd else none
  error : (∀ other ∈ s.complainers, other = session) →
    t.globals.prevLemmaError = s.globals.prevLemmaError
  inode : (∀ other ∈ s.listers, other = session) →
    t.globals.inodes = s.globals.inodes ∧ t.globals.nextInodeVar = s.globals.nextInodeVar
  disk : Agree (homes session) s.globals.disk t.globals.disk
  ended : t.ended session = s.ended session
  replies : t.replies session = s.replies session

/-- No path under the descriptor is another session's. -/
theorem none_of_giver {pd : Nat}
    (mine : (s.globals.lmPaths pd).isSome = true → s.giver pd = some session)
    (other : s.giver pd ≠ some session) : s.globals.lmPaths pd = none := by
  by_contra has
  exact other (mine (Option.isSome_iff_ne_none.mpr has))

/-- The twins' starting point. -/
theorem Shadows.alike (shadows : Shadows homes session s t) (pd : Nat) :
    Alike (homes session) pd ((s.globals.lmPaths pd).isSome = true → s.giver pd = some session)
      (∀ other ∈ s.complainers, other = session) (∀ other ∈ s.listers, other = session)
      s.globals t.globals where
  path := by
    intro mine
    rw [shadows.path]
    split
    · rfl
    · rename_i other
      exact (none_of_giver mine other).symm
  error := shadows.error
  inode := shadows.inode
  disk := shadows.disk
  handles := by
    intro mine p found handle isOpen
    obtain ⟨giver, given, files⟩ := shadows.owned pd p found
    have at_pd : s.globals.lmPaths pd = some p := found
    rw [mine (by rw [at_pd]; rfl), Option.some_inj] at given
    obtain ⟨home, member, below⟩ := files handle isOpen
    exact near_of_below (given ▸ member) below

/-- The session's own step is taken alone as well. -/
theorem Shadows.own (shadows : Shadows homes session s t) (own : action.session = session)
    (isolated : Isolated host homes s action) :
    Shadows homes session
      (s.after action (doLemMan host s.globals action.request action.pd))
      (t.after action (doLemMan host t.globals action.request action.pd)) := by
  subst own
  have change := change_doLemMan host s.globals action.request action.pd
  have change' := change_doLemMan host t.globals action.request action.pd
  have twin := twin_doLemMan (shadows.alike action.pd) isolated
  have alike := twin.alike
  rw [twin.effects] at change'
  refine ⟨shadows.owned.after isolated, ?_, ?_, ?_, alike.disk, ?_, ?_⟩
  · intro pd
    show (doLemMan host t.globals action.request action.pd).globals.lmPaths pd =
      if _ then (doLemMan host s.globals action.request action.pd).globals.lmPaths pd else none
    by_cases here : pd = action.pd
    · subst here
      by_cases uses : AboutPath action.request ∨
          gives (doLemMan host s.globals action.request action.pd).effects = true
      · have mine := isolated.path uses
        rw [alike.path mine]
        split
        · rfl
        · rename_i other
          have quiet : gives (doLemMan host s.globals action.request action.pd).effects = false := by
            rw [Bool.eq_false_iff]
            exact fun given => other (giver_of_gives given)
          rw [giver_of_not_gives quiet] at other
          exact change.none_of_none (none_of_giver mine other) quiet
      · rw [not_or, Bool.not_eq_true] at uses
        rw [change.lmPaths_of_not_about uses.1 uses.2, change'.lmPaths_of_not_about uses.1 uses.2,
          giver_of_not_gives uses.2]
        exact shadows.path _
    · rw [change.elsewhere here, change'.elsewhere here, giver_of_ne here]
      exact shadows.path pd
  · intro only
    refine alike.error fun other member => only other ?_
    show other ∈ if _ then _ else _
    split
    · exact List.mem_cons_of_mem _ member
    · exact member
  · intro only
    refine alike.inode fun other member => only other ?_
    show other ∈ if _ then _ else _
    split
    · exact List.mem_cons_of_mem _ member
    · exact member
  · show Function.update t.ended _ _ _ = Function.update s.ended _ _ _
    rw [Function.update_self, Function.update_self, twin.reply]
  · show Function.update t.replies _ _ _ = Function.update s.replies _ _ _
    rw [Function.update_self, Function.update_self, twin.reply, shadows.replies]

/-- Another session's step does not show. -/
theorem Shadows.other (shadows : Shadows homes session s t) (apart : Apart homes)
    (ne : action.session ≠ session) (isolated : Isolated host homes s action) :
    Shadows homes session
      (s.after action (doLemMan host s.globals action.request action.pd)) t := by
  have change := change_doLemMan host s.globals action.request action.pd
  refine ⟨shadows.owned.after isolated, ?_, ?_, ?_, ?_, ?_, ?_⟩
  · intro pd
    show t.globals.lmPaths pd =
      if _ then (doLemMan host s.globals action.request action.pd).globals.lmPaths pd else none
    rw [shadows.path]
    by_cases here : pd = action.pd
    · subst here
      by_cases uses : AboutPath action.request ∨
          gives (doLemMan host s.globals action.request action.pd).effects = true
      · have mine := isolated.path uses
        have before : (if s.giver action.pd = some session then s.globals.lmPaths action.pd
            else none) = none := by
          split
          · rename_i given
            refine none_of_giver mine ?_
            rw [given]
            exact fun same => ne (Option.some_inj.mp same).symm
          · rfl
        rw [before]
        split
        · rename_i given
          have quiet : gives (doLemMan host s.globals action.request action.pd).effects = false := by
            rw [Bool.eq_false_iff]
            intro gives
            rw [giver_of_gives gives] at given
            exact ne (Option.some_inj.mp given)
          rw [giver_of_not_gives quiet] at given
          rw [if_pos given] at before
          exact (change.none_of_none before quiet).symm
        · rfl
      · rw [not_or, Bool.not_eq_true] at uses
        rw [change.lmPaths_of_not_about uses.1 uses.2, giver_of_not_gives uses.2]
    · rw [change.elsewhere here, giver_of_ne here]
  · intro only
    have quiet : complains (doLemMan host s.globals action.request action.pd).effects = false := by
      rw [Bool.eq_false_iff]
      intro complained
      refine ne (only _ ?_)
      show _ ∈ if _ then _ else _
      rw [if_pos complained]
      exact List.mem_cons_self
    refine (shadows.error fun other member => only other ?_).trans (change.error quiet).symm
    show other ∈ if _ then _ else _
    rwa [if_neg (by rw [quiet]; exact Bool.false_ne_true)]
  · intro only
    have quiet : lists (doLemMan host s.globals action.request action.pd).effects = false := by
      rw [Bool.eq_false_iff]
      intro listed
      refine ne (only _ ?_)
      show _ ∈ if _ then _ else _
      rw [if_pos listed]
      exact List.mem_cons_self
    obtain ⟨inodes, next⟩ := change.inode quiet
    obtain ⟨inodes', next'⟩ := shadows.inode fun other member => only other (by
      show other ∈ if _ then _ else _
      rwa [if_neg (by rw [quiet]; exact Bool.false_ne_true)])
    exact ⟨inodes'.trans inodes.symm, next'.trans next.symm⟩
  · refine (change.disk_far ?_ ?_).trans shadows.disk
    · intro about p found handle isOpen
      obtain ⟨giver, given, files⟩ := shadows.owned action.pd p found
      have at_pd : s.globals.lmPaths action.pd = some p := found
      rw [isolated.path (.inl about) (by rw [at_pd]; rfl), Option.some_inj] at given
      exact apart.far ne (given ▸ files handle isOpen)
    · exact fun effect member path at_path =>
        apart.far ne (isolated.home effect member path at_path).1
  · exact shadows.ended.trans (Function.update_of_ne (Ne.symm ne) ..).symm
  · exact shadows.replies.trans (Function.update_of_ne (Ne.symm ne) ..).symm

/-! ### Isolation -/

theorem Shadows.start (homes : Session → List Place) (session : Session) (disk : Disk) :
    Shadows homes session (.start disk) (.start disk) where
  owned := fun _ _ found => by cases found
  path := fun _ => rfl
  error := fun _ => rfl
  inode := fun _ => ⟨rfl, rfl⟩
  disk := .refl _ _
  ended := rfl
  replies := rfl

/-- **Isolation.** In every run of any sessions in which each stays with its own files, with paths
of its own, and has errors and inodes to itself, each session gets the replies it would get alone,
and ends just when it would alone. -/
theorem isolated_of_own (host : Host) (homes : Session → List Place) (apart : Apart homes)
    (disk : Disk) (actions : List (Action Session))
    (meets : Meets (step host) (Isolated host homes) (.start disk) actions) (s : System Session)
    (reached : run (step host) (.start disk) actions = some s) (session : Session) :
    ∃ alone, run (step host) (.start disk) (actions.filter fun a => a.session = session) =
        some alone ∧
      alone.replies session = s.replies session ∧ alone.ended session = s.ended session := by
  have goes : ∀ {s next : System Session} {action : Action Session},
      step host s action = some next → s.ended action.session = false ∧
        s.after action (doLemMan host s.globals action.request action.pd) = next := by
    intro s next action taken
    unfold step at taken
    split at taken
    · cases taken
    · rename_i going
      exact ⟨Bool.eq_false_iff.mpr going, Option.some_inj.mp taken⟩
  obtain ⟨alone, reached', shadows⟩ := run_filter_simulates
    (fun action : Action Session => decide (action.session = session))
    (Shadows homes session)
    (fun s t action next shadows isolated taken mine => by
      obtain ⟨going, rfl⟩ := goes taken
      have own := of_decide_eq_true mine
      refine ⟨_, ?_, shadows.own own isolated⟩
      rw [step, if_neg]
      rw [own, shadows.ended, ← own, going]
      exact Bool.false_ne_true)
    (fun s t action next shadows isolated taken notMine => by
      obtain ⟨-, rfl⟩ := goes taken
      exact shadows.other apart (of_decide_eq_false notMine) isolated)
    (Shadows.start homes session disk) meets reached
  exact ⟨alone, reached', shadows.replies, shadows.ended⟩

end

/-- One session has `a`, the other `b`. -/
def ownFiles : Bool → List Place
  | false => [[[108, 102], [97]]]
  | true => [[[108, 102], [98]]]

/-- One session opens and reads `a` while the other creates and writes `b`. -/
def readAndWrite (pd : Bool → Nat) : List (Action Bool) :=
  [⟨false, openA, pd false⟩, ⟨true, createB, pd true⟩, ⟨false, requestOf 7 0 0 5 0 [], pd false⟩,
    ⟨true, requestOf 8 0 0 2 0 [104, 105], pd true⟩]

theorem isolated_readAndWrite :
    ∃ s alone : System Bool,
      run (step smallHost) (.start (smallDisk hello)) (readAndWrite fun b => b.toNat) = some s ∧
        run (step smallHost) (.start (smallDisk hello))
          ((readAndWrite fun b => b.toNat).filter fun a => a.session = false) = some alone ∧
        alone.replies false = s.replies false := by
  obtain ⟨s, reached⟩ := Option.isSome_iff_exists.mp
    (show (run (step smallHost) (.start (smallDisk hello))
      (readAndWrite fun b => b.toNat)).isSome = true by decide +kernel)
  obtain ⟨alone, reached', replies, -⟩ := isolated_of_own smallHost ownFiles
    (by unfold Apart; decide +kernel) (smallDisk hello) (readAndWrite fun b => b.toNat)
    (by decide +kernel) s reached false
  exact ⟨s, alone, reached, reached', replies⟩

/-- With the same path descriptor the Create of one session takes the place of the path the other
has opened, whose Read then finds an empty file. -/
theorem not_isolated_sameDescriptor :
    ∃ s alone : System Bool,
      run (step smallHost) (.start (smallDisk hello)) (readAndWrite fun _ => 7) = some s ∧
        run (step smallHost) (.start (smallDisk hello))
          ((readAndWrite fun _ => 7).filter fun a => a.session = false) = some alone ∧
        alone.replies false ≠ s.replies false := by
  have together : (run (step smallHost) (.start (smallDisk hello)) (readAndWrite fun _ => 7)).map
      (fun s => (s.replies false).map List.head?) = some [some 0, some E_EOF] := by
    decide +kernel
  have apart : (run (step smallHost) (.start (smallDisk hello))
      ((readAndWrite fun _ => 7).filter fun a => a.session = false)).map
        (fun s => (s.replies false).map List.head?) = some [some 0, some 0] := by
    decide +kernel
  obtain ⟨s, reached, replies⟩ := Option.map_eq_some_iff.mp together
  obtain ⟨alone, reached', replies'⟩ := Option.map_eq_some_iff.mp apart
  refine ⟨s, alone, reached, reached', fun same => ?_⟩
  rw [same, replies] at replies'
  exact absurd replies' (by decide)

end Frobio.LemMan
