/-
This file models the edit actions of `lemma/menu.go`, which cut, copy and paste the files below the
navigator's root, and shows of which sequences of them the user's permission to write is respected.

A file of the host is at a place, the names that lead to it, and there are no links. The host may
refuse any call, and files are otherwise read and written without errors, but for directories. A
panic is caught by `DoAction`, which shows it like any other refusal.
-/

import Frobio.Lib.Disk
import Frobio.Lib.Run
import Frobio.Pizga.Lattice

namespace Frobio.Edits

open Coms SlashPath Utf8 Pizga Run
open Disk (Place)

/-! ### The files of the host -/

inductive Stored
  | dir
  | file (bytes : Text)
  deriving DecidableEq

/-- What is below the root, and where the host lets us make calls. -/
structure Tree where
  entries : List (Place × Stored)
  permits : Place → Bool

namespace Tree

/-- `os.Stat` -/
def stored (tree : Tree) (place : Place) : Option Stored :=
  if place = [] then some .dir
  else (tree.entries.find? fun entry => entry.1 == place).map Prod.snd

def hasParent (tree : Tree) (place : Place) : Prop :=
  place ≠ [] ∧ tree.stored place.dropLast = some .dir

instance (tree : Tree) (place : Place) : Decidable (tree.hasParent place) :=
  inferInstanceAs (Decidable (_ ∧ _))

def set (tree : Tree) (place : Place) (what : Stored) : Tree :=
  { tree with entries := (place, what) :: tree.entries.filter fun entry => entry.1 != place }

/-- `os.Create` -/
def create (tree : Tree) (place : Place) : Option Tree :=
  if tree.permits place ∧ tree.hasParent place ∧ tree.stored place ≠ some .dir then
    some (tree.set place (.file []))
  else none

/-- An entry after its directory was renamed, or it was itself. -/
def moved (old new : Place) (entry : Place × Stored) : Place × Stored :=
  if old <+: entry.1 then (new ++ entry.1.drop old.length, entry.2) else entry

/-- `os.Rename`: a file takes the place of another one, and a directory is not moved below itself or
to where something is. -/
def rename (tree : Tree) (old new : Place) : Option Tree :=
  match tree.stored old with
  | none => none
  | some what =>
    if tree.permits old ∧ tree.permits new ∧ old ≠ [] ∧ tree.hasParent new ∧
        tree.stored new ≠ some .dir ∧ (what = .dir → tree.stored new = none) ∧
        (old <+: new → old = new) then
      if old = new then some tree
      else
        some { tree with
          entries := (tree.entries.filter fun entry => ¬new <+: entry.1).map (moved old new) }
    else none

/-- `os.Remove` of a file or of an empty directory, whose errors are ignored. -/
def remove (tree : Tree) (place : Place) : Tree :=
  if tree.permits place ∧ ∀ entry ∈ tree.entries, place <+: entry.1 → entry.1 = place then
    { tree with entries := tree.entries.filter fun entry => entry.1 != place }
  else tree

/-- `CopyFile`, and whether it returns an error. A directory is opened, but not read. -/
def copyFile (tree : Tree) (src dest : Place) : Tree × Bool :=
  if tree.permits src = true ∧ tree.stored src ≠ none then
    match tree.create dest with
    | none => (tree, true)
    | some made =>
      match made.stored src with
      | some (.file bytes) => (made.set dest (.file bytes), false)
      | _ => (made, true)
  else (tree, true)

/-- `CopyFile` opens its source and makes its destination. -/
def Makes (tree : Tree) (src dest : Place) : Prop :=
  (tree.permits src = true ∧ tree.stored src ≠ none) ∧ (tree.create dest).isSome = true

end Tree

/-! ### The actions -/

/-- The flag `dos_root`, which `UnixPath` wants set, the waiter's current directory, and the name of
the session's user. -/
structure Server where
  table : UpperCase
  navRoot : Text
  flagged : navRoot ≠ []
  current : Place
  hostname : Text

/-- The clipboard, and the files. -/
structure State where
  tree : Tree
  cutPath : Text
  holdingPath : Text

inductive What
  | cut
  | copy
  | paste
  | rename
  deriving DecidableEq

/-- An action on an entry below the root, at a time, and what the user says to `Confirm`. -/
structure Edit where
  what : What
  mod : Place
  named : ∀ name ∈ mod, Name name
  timestamp : Text
  yes : Bool

section

variable (server : Server)

/-- Where `TruePath` leads. -/
def truePlace (path : Text) : Place := resolve server.current (join [server.navRoot, path])

def trash : Text :=
  join [join [ascii "Homes", toUpper server.table server.hostname], ascii "Trash"]

def holding (edit : Edit) : Text :=
  join [trash server, edit.timestamp ++ ascii "-" ++ base (below edit.mod)]

def permitted (path : Text) (toWrite : Bool) : Option Bool :=
  canAccess server.table [server.hostname] path toWrite

/-- The action, and whether it is refused. -/
def cut (state : State) (edit : Edit) : State × Bool :=
  let path := below edit.mod
  let state := { state with cutPath := path, holdingPath := holding server edit }
  match state.tree.rename (truePlace server path) (truePlace server state.holdingPath) with
  | none => (state, true)
  | some tree =>
    if permitted server path true = some true then
      ({ state with tree := tree.remove (truePlace server path) }, false)
    else ({ state with tree }, true)

def copy (state : State) (edit : Edit) : State × Bool :=
  let path := below edit.mod
  let state := { state with cutPath := path, holdingPath := holding server edit }
  let copied := state.tree.copyFile (truePlace server path) (truePlace server state.holdingPath)
  ({ state with tree := copied.1 }, copied.2)

/-- Where something is pasted: into a directory, or at the path itself. -/
def destination (state : State) (path : Text) : Text :=
  if state.tree.stored (truePlace server path) = some .dir then join [path, base state.cutPath]
  else path

def paste (state : State) (edit : Edit) : State × Bool :=
  let dest := destination server state (below edit.mod)
  let copied := state.tree.copyFile (truePlace server state.holdingPath) (truePlace server dest)
  if state.holdingPath.length < 2 then (state, true)
  else if permitted server dest true ≠ some true then (state, true)
  else
    match state.tree.stored (truePlace server dest) with
    | none => ({ state with tree := copied.1 }, copied.2)
    | some .dir => (state, true)
    | some (.file _) =>
      if edit.yes then ({ state with tree := copied.1 }, copied.2) else (state, false)

/-- `EditAction.Do` -/
def editActionDo (state : State) (edit : Edit) : State × Bool :=
  if permitted server (below edit.mod) false = some true then
    match edit.what with
    | .cut => cut server state edit
    | .copy => copy server state edit
    | .paste => paste server state edit
    | .rename => (state, true)
  else (state, true)

def step (state : State) (edit : Edit) : Option State := some (editActionDo server state edit).1

/-! ### What is respected -/

def rootPlace : Place := resolve server.current server.navRoot

/-- `CanAccess` lets the user write at the path of the place. -/
def Writable (place : Place) : Prop :=
  ∃ names, (∀ name ∈ names, Name name) ∧ place = rootPlace server ++ names ∧
    permitted server (below names) true = some true

/-- Nothing is changed where the user may not write. -/
def Respects (before after : Tree) : Prop :=
  ∀ place, (∀ name ∈ place, Name name) → ¬Writable server place →
    after.stored place = before.stored place

/-- The host renames what is cut. -/
def Renames (state : State) (edit : Edit) : Prop :=
  (state.tree.rename (truePlace server (below edit.mod))
    (truePlace server (holding server edit))).isSome = true

/-- Something is held, the user may write where it is pasted, and agrees if a file is there. -/
def Pastes (state : State) (edit : Edit) : Prop :=
  let dest := destination server state (below edit.mod)
  2 ≤ state.holdingPath.length ∧ permitted server dest true = some true ∧
    state.tree.stored (truePlace server dest) ≠ some .dir ∧
    (edit.yes = true ∨ state.tree.stored (truePlace server dest) = none)

/-- The user may write what is cut, and in the trash; and no directory is copied or pasted. This is
asked only where the host renames a file, or `CopyFile` is called and makes its destination. -/
def Careful (state : State) (edit : Edit) : Prop :=
  permitted server (below edit.mod) false = some true →
    match edit.what with
    | .cut => Renames server state edit → permitted server (below edit.mod) true = some true ∧
        Writable server (truePlace server (holding server edit))
    | .copy =>
      state.tree.Makes (truePlace server (below edit.mod)) (truePlace server (holding server edit)) →
        Writable server (truePlace server (holding server edit)) ∧
          state.tree.stored (truePlace server (below edit.mod)) ≠ some .dir
    | .paste => Pastes server state edit →
      state.tree.Makes (truePlace server state.holdingPath)
        (truePlace server (destination server state (below edit.mod))) →
        state.tree.stored (truePlace server state.holdingPath) ≠ some .dir
    | .rename => True

end

/-! ### What the calls change -/

namespace Tree

theorem stored_set_of_ne {place other : Place} (tree : Tree) (what : Stored)
    (apart : place ≠ other) : (tree.set place what).stored other = tree.stored other := by
  have kept : ((tree.set place what).entries.find? fun entry => entry.1 == other) =
      tree.entries.find? fun entry => entry.1 == other := by
    show ((place, what) :: tree.entries.filter fun entry => entry.1 != place).find?
      (fun entry => entry.1 == other) = _
    rw [List.find?_cons_of_neg (by simpa using apart), List.find?_filter]
    congr 1
    funext entry
    by_cases same : entry.1 = other
    · simp [same, Ne.symm apart]
    · simp [same]
  rw [stored, stored, kept]

theorem stored_set_self {place : Place} (some_ : place ≠ []) (tree : Tree) (what : Stored) :
    (tree.set place what).stored place = some what := by
  rw [stored, if_neg some_, set, List.find?_cons_of_pos (by simp)]
  rfl

theorem stored_create_of_ne {tree made : Tree} {place other : Place} (apart : place ≠ other)
    (created : tree.create place = some made) : made.stored other = tree.stored other := by
  rw [create] at created
  split at created
  · cases created
    exact stored_set_of_ne tree _ apart
  · cases created

theorem stored_rename_of_apart {tree next : Tree} {old new place : Place}
    (renamed : tree.rename old new = some next) (away : ¬old <+: place) (away' : ¬new <+: place) :
    next.stored place = tree.stored place := by
  rw [rename] at renamed
  split at renamed
  · cases renamed
  split at renamed
  · split at renamed
    · cases renamed
      rfl
    · cases renamed
      have kept : ((tree.entries.filter fun entry => ¬new <+: entry.1).map (moved old new)).find?
          (fun entry => entry.1 == place) = tree.entries.find? fun entry => entry.1 == place := by
        have skip {entry : Place × Stored} (elsewhere : entry.1 ≠ place)
            (entries : List (Place × Stored)) :
            ((entry :: entries).find? fun entry => entry.1 == place) =
              entries.find? fun entry => entry.1 == place := by
          rw [List.find?_cons, beq_false_of_ne elsewhere]
        induction tree.entries with
        | nil => rfl
        | cons entry entries inductionHypothesis =>
          by_cases under : new <+: entry.1
          · have elsewhere : entry.1 ≠ place := fun same => away' (same ▸ under)
            rw [List.filter_cons_of_neg (by simpa using under), inductionHypothesis,
              skip elsewhere]
          rw [List.filter_cons_of_pos (by simpa using under), List.map_cons]
          by_cases goes : old <+: entry.1
          · have elsewhere : entry.1 ≠ place := fun same => away (same ▸ goes)
            have elsewhere' : (moved old new entry).1 ≠ place := by
              rw [moved, if_pos goes]
              exact fun same => away' (same ▸ List.prefix_append _ _)
            rw [skip elsewhere', inductionHypothesis, skip elsewhere]
          · rw [moved, if_neg goes, List.find?_cons, List.find?_cons, inductionHypothesis]
      rw [stored, stored, kept]
  · cases renamed

theorem stored_remove_of_ne (tree : Tree) {place other : Place} (apart : place ≠ other) :
    (tree.remove place).stored other = tree.stored other := by
  rw [remove]
  split
  · have kept : (tree.entries.filter fun entry => entry.1 != place).find?
        (fun entry => entry.1 == other) = tree.entries.find? fun entry => entry.1 == other := by
      rw [List.find?_filter]
      congr 1
      funext entry
      by_cases same : entry.1 = other
      · simp [same, Ne.symm apart]
      · simp [same]
    rw [stored, stored, kept]
  · rfl

/-- Only at its destination does a copy change anything, and nothing if it fails. -/
theorem copyFile_spec (tree : Tree) {src dest : Place} (file : tree.stored src ≠ some .dir) :
    (∀ place, dest ≠ place → (tree.copyFile src dest).1.stored place = tree.stored place) ∧
      ((tree.copyFile src dest).2 = true → (tree.copyFile src dest).1 = tree) := by
  rw [copyFile]
  split
  · rename_i there
    cases created : tree.create dest with
    | none => exact ⟨fun _ _ => rfl, fun _ => rfl⟩
    | some made =>
      have readable : ∃ bytes, made.stored src = some (.file bytes) := by
        rw [create] at created
        split at created
        · rename_i fits
          cases created
          by_cases same : dest = src
          · exact ⟨[], same ▸ stored_set_self fits.2.1.1 tree _⟩
          · rw [stored_set_of_ne tree _ same]
            cases found : tree.stored src with
            | none => exact absurd found there.2
            | some what =>
              cases what with
              | dir => exact absurd found file
              | file bytes => exact ⟨bytes, rfl⟩
        · cases created
      obtain ⟨bytes, readable⟩ := readable
      dsimp only
      rw [readable]
      refine ⟨fun place apart => ?_, fun refused => absurd refused Bool.false_ne_true⟩
      exact (stored_set_of_ne made _ apart).trans (stored_create_of_ne apart created)
  · exact ⟨fun _ _ => rfl, fun _ => rfl⟩

theorem copyFile_of_not_makes {tree : Tree} {src dest : Place} (not : ¬tree.Makes src dest) :
    tree.copyFile src dest = (tree, true) := by
  rw [copyFile]
  split
  · rename_i opened
    cases created : tree.create dest with
    | none => rfl
    | some made =>
      refine absurd ⟨opened, ?_⟩ not
      rw [created]
      rfl
  · rfl

end Tree

/-! ### Where the user may write -/

theorem walk_below (place : Place) {names : List Text} (each : ∀ name ∈ names, Name name) :
    walk place ((below names).splitOn slash) = place ++ names := by
  by_cases some_ : names = []
  · subst some_
    rw [List.append_nil]
    rfl
  · rw [splitOn_below each some_]
    exact walk_names each place

theorem base_ne_nil (path : Text) : base path ≠ [] := by
  rw [base]
  split
  · decide
  split
  · rename_i found
    have some_ := List.find?_some found
    exact of_decide_eq_true some_
  · decide

section

variable {server : Server}

/-- A path from the navigator's root leads below the host's directory that is the root. -/
theorem truePlace_below {names : List Text} (each : ∀ name ∈ names, Name name) :
    truePlace server (below names) = rootPlace server ++ names := by
  rw [truePlace, @join_pair _ (below names) server.flagged (List.cons_ne_nil _ _), resolve_clean,
    resolve_append _ server.flagged, walk_below _ each]
  rfl

theorem permitted_write {path : Text} : permitted server path true = some true ↔
    ∃ rest, accessWords server.table path =
      HOMES :: toUpper server.table server.hostname :: rest := by
  rw [← canAccess1_write, permitted, canAccess]
  cases canAccess1 server.table server.hostname path true with
  | none => exact iff_of_false nofun nofun
  | some allowed =>
    cases allowed with
    | true => exact iff_of_true rfl rfl
    | false => exact Iff.rfl

theorem upperWords_below {names : List Text} (each : ∀ name ∈ names, Name name) :
    upperWords server.table (below names) = names.map (toUpper server.table) := by
  have root : rooted (below names) = true := rfl
  rw [upperWords, root, cleanWords_true, walk_below [] each]
  rfl

theorem permitted_below {names : List Text} (each : ∀ name ∈ names, Name name) :
    permitted server (below names) true = some true ↔
      ∃ rest, names.map (toUpper server.table) =
        HOMES :: toUpper server.table server.hostname :: rest := by
  rw [permitted_write, ← upperWords_below each]
  rcases accessWords_cases server.table (below names) with same | ⟨empty, one | one⟩
  · rw [same]
  · rw [empty, one]
    exact iff_of_false (fun ⟨rest, same⟩ => nomatch same) fun ⟨rest, same⟩ => nomatch same
  · rw [empty, one]
    exact iff_of_false (fun ⟨rest, same⟩ => nomatch same) fun ⟨rest, same⟩ => nomatch same

theorem writable_below {names : List Text} (each : ∀ name ∈ names, Name name) :
    Writable server (rootPlace server ++ names) ↔
      permitted server (below names) true = some true := by
  constructor
  · rintro ⟨names', -, same, allowed⟩
    exact List.append_cancel_left same ▸ allowed
  · exact fun allowed => ⟨names, each, rfl, allowed⟩

/-- Below where the user may write, the user may write. -/
theorem Writable.below {place other : Place} (writable : Writable server place)
    (under : place <+: other) (each : ∀ name ∈ other, Name name) : Writable server other := by
  obtain ⟨names, namesEach, rfl, allowed⟩ := writable
  obtain ⟨more, rfl⟩ := under
  have longer : ∀ name ∈ names ++ more, Name name := by
    intro name member
    rcases List.mem_append.mp member with first | second
    · exact namesEach name first
    · exact each name (List.mem_append_right _ second)
  refine ⟨names ++ more, longer, List.append_assoc _ _ _, ?_⟩
  obtain ⟨rest, words⟩ := (permitted_below namesEach).mp allowed
  refine (permitted_below longer).mpr ⟨rest ++ more.map (toUpper server.table), ?_⟩
  rw [List.map_append, words]
  rfl

theorem destination_below (state : State) {mod : Place} (named : ∀ name ∈ mod, Name name) :
    ∃ names, (∀ name ∈ names, Name name) ∧
      destination server state (below mod) = below names := by
  rw [destination]
  split
  · have root : rooted (below mod ++ slash :: base state.cutPath) = true := rfl
    rw [@join_pair (below mod) _ (List.cons_ne_nil _ _) (base_ne_nil _), clean_of_rooted root]
    exact ⟨_, fun name member => name_of_mem_resolve root member, rfl⟩
  · exact ⟨mod, named, rfl⟩

/-! ### Every sequence -/

theorem Respects.refl (tree : Tree) : Respects server tree tree := fun _ _ _ => rfl

/-- What changes at one place only, where the user may write, is respected. -/
theorem respects_of_apart {before after : Tree} {dest : Place} (writable : Writable server dest)
    (kept : ∀ place, dest ≠ place → after.stored place = before.stored place) :
    Respects server before after :=
  fun place _ denied => kept place fun same => denied (same ▸ writable)

theorem cut_respects {state : State} {edit : Edit}
    (careful : Renames server state edit → permitted server (below edit.mod) true = some true ∧
      Writable server (truePlace server (holding server edit))) :
    Respects server state.tree (cut server state edit).1.tree ∧
      ((cut server state edit).2 = true → (cut server state edit).1.tree = state.tree) := by
  rw [Renames] at careful
  rw [cut]
  dsimp only
  cases renamed : state.tree.rename (truePlace server (below edit.mod))
      (truePlace server (holding server edit)) with
  | none => exact ⟨.refl _, fun _ => rfl⟩
  | some next =>
    rw [renamed] at careful
    obtain ⟨allowed, writable⟩ := careful rfl
    have own : Writable server (truePlace server (below edit.mod)) := by
      rw [truePlace_below edit.named]
      exact (writable_below edit.named).mpr allowed
    dsimp only
    rw [if_pos allowed]
    refine ⟨fun place each denied => ?_, fun refused => absurd refused Bool.false_ne_true⟩
    have away : ¬truePlace server (below edit.mod) <+: place :=
      fun under => denied (own.below under each)
    have away' : ¬truePlace server (holding server edit) <+: place :=
      fun under => denied (writable.below under each)
    have other : truePlace server (below edit.mod) ≠ place := by
      rintro rfl
      exact away List.prefix_rfl
    rw [Tree.stored_remove_of_ne next other]
    exact Tree.stored_rename_of_apart renamed away away'

/-- A copy to where the user may write, of a file if it makes its destination. -/
theorem copyFile_respects {tree : Tree} {src dest : Place}
    (careful : tree.Makes src dest → Writable server dest ∧ tree.stored src ≠ some .dir) :
    Respects server tree (tree.copyFile src dest).1 ∧
      ((tree.copyFile src dest).2 = true → (tree.copyFile src dest).1 = tree) := by
  by_cases makes : tree.Makes src dest
  · obtain ⟨writable, file⟩ := careful makes
    obtain ⟨kept, refused⟩ := @Tree.copyFile_spec tree src dest file
    exact ⟨respects_of_apart writable kept, refused⟩
  · rw [Tree.copyFile_of_not_makes makes]
    exact ⟨.refl _, fun _ => rfl⟩

theorem paste_respects {state : State} {edit : Edit}
    (careful : Pastes server state edit → state.tree.Makes (truePlace server state.holdingPath)
      (truePlace server (destination server state (below edit.mod))) →
      state.tree.stored (truePlace server state.holdingPath) ≠ some .dir) :
    Respects server state.tree (paste server state edit).1.tree ∧
      ((paste server state edit).2 = true → (paste server state edit).1.tree = state.tree) := by
  obtain ⟨names, each, same⟩ := @destination_below server state edit.mod edit.named
  have nothing : Respects server state.tree state.tree ∧ (true = true → state.tree = state.tree) :=
    ⟨.refl _, fun _ => rfl⟩
  rw [paste]
  split
  · exact nothing
  rename_i held
  split
  · exact nothing
  rename_i allowed
  rw [ne_eq, not_not] at allowed
  have writable :
      Writable server (truePlace server (destination server state (below edit.mod))) := by
    rw [same] at allowed ⊢
    rw [truePlace_below each]
    exact (writable_below each).mpr allowed
  have copied (notDir : state.tree.stored (truePlace server
        (destination server state (below edit.mod))) ≠ some .dir)
      (agreed : edit.yes = true ∨ state.tree.stored (truePlace server
        (destination server state (below edit.mod))) = none) :=
    copyFile_respects fun makes =>
      ⟨writable, careful ⟨Nat.le_of_not_lt held, allowed, notDir, agreed⟩ makes⟩
  split
  · rename_i free
    exact copied (by rw [free]; exact (Option.some_ne_none _).symm) (.inr free)
  · exact nothing
  · rename_i there
    split
    · rename_i agreed
      refine copied ?_ (.inl agreed)
      rw [there]
      exact fun wrong => Stored.noConfusion (Option.some.inj wrong)
    · exact ⟨.refl _, fun _ => rfl⟩

theorem editActionDo_respects {state : State} {edit : Edit} (careful : Careful server state edit) :
    Respects server state.tree (editActionDo server state edit).1.tree ∧
      ((editActionDo server state edit).2 = true →
        (editActionDo server state edit).1.tree = state.tree) := by
  rw [Careful] at careful
  rw [editActionDo]
  split
  · rename_i readable
    have holds := careful readable
    generalize edit.what = what at holds ⊢
    cases what with
    | cut => exact cut_respects holds
    | copy => exact copyFile_respects holds
    | paste => exact paste_respects holds
    | rename => exact ⟨.refl _, fun _ => rfl⟩
  · exact ⟨.refl _, fun _ => rfl⟩

/-- In every sequence of edit actions that are careful, nothing is changed where the user may not
write, and an action that is refused changes nothing at all. -/
theorem edits_respected {start final : State} {edits : List Edit}
    (careful : Meets (step server) (Careful server) start edits)
    (reached : run (step server) start edits = some final) :
    Respects server start.tree final.tree ∧
      ∀ earlier edit later middle, edits = earlier ++ edit :: later →
        run (step server) start earlier = some middle →
        (editActionDo server middle edit).2 = true →
        (editActionDo server middle edit).1.tree = middle.tree := by
  refine ⟨?_, fun earlier edit later middle split before => ?_⟩
  · refine invariant_of_run (fun state => Respects server start.tree state.tree) ?_ (.refl _)
      careful reached
    intro state edit next respected holds taken
    obtain rfl := Option.some.inj taken
    intro place each denied
    exact ((editActionDo_respects holds).1 place each denied).trans (respected place each denied)
  · have holds := meets_iff_forall_split.mp careful earlier edit later middle split before
    exact (editActionDo_respects holds).2

/-- The trash is in the user's home, if the name of the user is one that a directory can have. -/
theorem writable_holding (named : Name (toUpper server.table server.hostname))
    (again : toUpper server.table (toUpper server.table server.hostname) =
      toUpper server.table server.hostname) {edit : Edit} (plain : slash ∉ edit.timestamp)
    (inside : slash ∉ base (below edit.mod)) :
    Writable server (truePlace server (holding server edit)) := by
  have homesName : Name (ascii "Homes") := by decide
  have trashName : Name (ascii "Trash") := by decide
  have word : Name (edit.timestamp ++ ascii "-" ++ base (below edit.mod)) := by
    have hyphen : (45 : UInt8) ∈ edit.timestamp ++ ascii "-" ++ base (below edit.mod) :=
      List.mem_append_left _ (List.mem_append_right _ List.mem_cons_self)
    refine ⟨fun empty => ?_, fun same => ?_, fun same => ?_, fun member => ?_⟩
    · rw [empty] at hyphen
      exact absurd hyphen List.not_mem_nil
    · rw [same] at hyphen
      exact absurd hyphen (by decide)
    · rw [same] at hyphen
      exact absurd hyphen (by decide)
    · rcases List.mem_append.mp member with front | last
      · rcases List.mem_append.mp front with time | sign
        · exact plain time
        · exact absurd sign (by decide)
      · exact inside last
  have home := resolve_join_name (rootPlace server) (rooted_of_name homesName) named
  have trash_ : rooted (trash server) = false ∧ resolve (rootPlace server) (trash server) = _ :=
    resolve_join_name (rootPlace server) home.1 trashName
  have held : rooted (holding server edit) = false ∧
      resolve (rootPlace server) (holding server edit) = _ :=
    resolve_join_name (rootPlace server) trash_.1 word
  have some_ : holding server edit ≠ [] := by
    rw [holding, join]
    split
    · rename_i nothing
      have kept : edit.timestamp ++ ascii "-" ++ base (below edit.mod) ∈
          [trash server, edit.timestamp ++ ascii "-" ++ base (below edit.mod)].filter (· ≠ []) :=
        List.mem_filter.mpr ⟨List.mem_cons_of_mem _ List.mem_cons_self, decide_eq_true word.1⟩
      rw [nothing] at kept
      cases kept
    · exact clean_ne_nil _
  have place : truePlace server (holding server edit) = rootPlace server ++
      [ascii "Homes", toUpper server.table server.hostname, ascii "Trash",
        edit.timestamp ++ ascii "-" ++ base (below edit.mod)] := by
    rw [truePlace, join_pair server.flagged some_, resolve_clean,
      resolve_below _ server.flagged held.1]
    show resolve (rootPlace server) (holding server edit) = _
    rw [held.2, trash_.2, home.2, resolve_name _ homesName]
    simp only [List.append_assoc, List.cons_append, List.nil_append]
  have each : ∀ name ∈ [ascii "Homes", toUpper server.table server.hostname, ascii "Trash",
      edit.timestamp ++ ascii "-" ++ base (below edit.mod)], Name name := by
    intro name member
    rcases List.mem_cons.mp member with rfl | member
    · exact homesName
    rcases List.mem_cons.mp member with rfl | member
    · exact named
    rcases List.mem_cons.mp member with rfl | member
    · exact trashName
    rw [List.mem_singleton.mp member]
    exact word
  rw [place]
  refine (writable_below each).mpr ((permitted_below each).mpr
    ⟨[ascii "Trash", edit.timestamp ++ ascii "-" ++ base (below edit.mod)].map
      (toUpper server.table), ?_⟩)
  rw [List.map_cons, List.map_cons, again]
  rfl

end

/-! ### Two users -/

/-- The navigator of the user `alice`. -/
def alice : Server where
  table := plainUpper
  navRoot := ascii "/nav"
  flagged := by decide
  current := []
  hostname := ascii "alice"

/-- A file of each of two users, with nothing in the clipboard. -/
def twoHomes : State where
  tree := {
    entries := [([ascii "nav"], .dir), ([ascii "nav", ascii "Homes"], .dir),
      ([ascii "nav", ascii "Homes", ascii "ALICE"], .dir),
      ([ascii "nav", ascii "Homes", ascii "ALICE", ascii "Trash"], .dir),
      ([ascii "nav", ascii "Homes", ascii "ALICE", ascii "mine"], .file (ascii "A")),
      ([ascii "nav", ascii "Homes", ascii "BOB"], .dir),
      ([ascii "nav", ascii "Homes", ascii "BOB", ascii "his"], .file (ascii "B"))]
    permits := fun _ => true }
  cutPath := []
  holdingPath := []

def editOf (what : What) (mod : Place) (named : ∀ name ∈ mod, Name name) : Edit :=
  ⟨what, mod, named, ascii "1120-093000", true⟩

/-- Alice pastes when nothing is held, copies what is hers, and what is Bob's, and pastes that. -/
def copies : List Edit :=
  [editOf .paste [ascii "Homes", ascii "ALICE"] (by decide),
    editOf .copy [ascii "Homes", ascii "ALICE", ascii "mine"] (by decide),
    editOf .copy [ascii "Homes", ascii "BOB", ascii "his"] (by decide),
    editOf .paste [ascii "Homes", ascii "ALICE"] (by decide)]

theorem edits_respected_copies :
    ∃ final, run (step alice) twoHomes copies = some final ∧
      Respects alice twoHomes.tree final.tree ∧
        ∀ earlier edit later middle, copies = earlier ++ edit :: later →
          run (step alice) twoHomes earlier = some middle →
          (editActionDo alice middle edit).2 = true →
          (editActionDo alice middle edit).1.tree = middle.tree := by
  have inTrash (edit : Edit) (plain : slash ∉ edit.timestamp)
      (inside : slash ∉ base (below edit.mod)) :
      Writable alice (truePlace alice (holding alice edit)) :=
    writable_holding (by decide +kernel) (by decide +kernel) plain inside
  have careful : Meets (step alice) (Careful alice) twoHomes copies := by
    refine ⟨fun _ pastes => absurd pastes.1 (by decide), fun next taken => ?_⟩
    obtain rfl := Option.some.inj taken
    refine ⟨fun _ _ => ⟨inTrash _ (by decide) (by decide +kernel), by decide +kernel⟩,
      fun next taken => ?_⟩
    obtain rfl := Option.some.inj taken
    refine ⟨fun _ _ => ⟨inTrash _ (by decide) (by decide +kernel), by decide +kernel⟩,
      fun next taken => ?_⟩
    obtain rfl := Option.some.inj taken
    exact ⟨fun _ _ _ => by decide +kernel, fun _ _ => trivial⟩
  exact ⟨_, rfl, edits_respected careful rfl⟩

def cutting : Edit := editOf .cut [ascii "Homes", ascii "BOB", ascii "his"] (by decide)

/-- Alice cuts what is Bob's: the action is refused, and the file is gone. -/
theorem not_edits_respected_cut :
    (editActionDo alice twoHomes cutting).2 = true ∧
      ¬Respects alice twoHomes.tree (editActionDo alice twoHomes cutting).1.tree := by
  refine ⟨by decide +kernel, fun respects => ?_⟩
  have each : ∀ name ∈ [ascii "Homes", ascii "BOB", ascii "his"], Name name := by decide
  have same := respects (rootPlace alice ++ [ascii "Homes", ascii "BOB", ascii "his"])
    (by decide +kernel) (fun writable => absurd ((writable_below each).mp writable)
      (by decide +kernel))
  exact absurd same (by decide +kernel)

end Frobio.Edits
