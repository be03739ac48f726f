/-
This file is about the files a host keeps: a tree of directories and regular
files, the calls that create, open, list and remove them, and reads and writes
through a file that is open.

A place is the list of names that leads to it from the root. There are no links,
neither symbolic nor hard, so an entry that is a file has one place. A file that is
removed stays readable and writable through the handles that have it open, and a
file created at the same place later is another one: `FileId` counts the files made
at a place.

`Agree` is about two disks that are alike near some places, which is as far as the
calls on these places and below can tell them apart; `agree_create` and its
siblings say that the calls give the same results there, and the lemmas named
`far` that a call elsewhere changes nothing that is near.
-/

import Frobio.Lib.Positional
import Frobio.Lib.SlashPath

namespace Frobio.Disk

open SlashPath Positional

/-! ### Disks -/

abbrev Place := List Text

/-- A file: where it was made, and the how manieth it was there. -/
structure FileId where
  place : Place
  made : Nat
  deriving DecidableEq

inductive Node
  | dir
  | file
  deriving DecidableEq

structure Entry where
  dir : Place
  name : Text
  named : Name name
  node : Node

def Entry.place (entry : Entry) : Place := entry.dir ++ [entry.name]

structure Disk where
  entries : List Entry
  /-- How many files were made at a place. The file that is there is the last one. -/
  made : Place → Nat
  content : FileId → Text
  /-- Whether the host lets us create, open, list or remove what is at a place. -/
  permits : Place → Bool

namespace Disk

def nodeAt (disk : Disk) (place : Place) : Option Node :=
  if place = [] then some .dir
  else (disk.entries.find? fun entry => entry.place == place).map Entry.node

/-- The file that is at a place, if a file is. -/
def fileAt (disk : Disk) (place : Place) : FileId := ⟨place, disk.made place⟩

end Disk

/-! ### Finding a path -/

/-- The directories a path goes through from a directory, word by word. -/
def through (place : Place) : List Text → List Place
  | [] => []
  | word :: rest => place :: through (follow place word) rest

/-- The directories a path goes through from the current directory. -/
def visited (current : Place) (path : Text) : List Place :=
  through (if rooted path then [] else current) (path.splitOn slash)

namespace Disk

/-- The place a path leads to, if there is a directory wherever it goes through. -/
def find (disk : Disk) (current : Place) (path : Text) : Option Place :=
  if path ≠ [] ∧ ∀ place ∈ visited current path, disk.nodeAt place = some .dir then
    some (resolve current path)
  else none

/-! ### Calls -/

/-- Store the whole content of a file. -/
def store (disk : Disk) (file : FileId) (text : Text) : Disk :=
  { disk with content := Function.update disk.content file text }

/-- Make another file with this name in the directory. -/
def add (disk : Disk) (dir : Place) (name : Text) (named : Name name) : Disk :=
  { disk with
    entries := disk.entries ++ [⟨dir, name, named, .file⟩]
    made := Function.update disk.made (dir ++ [name]) (disk.made (dir ++ [name]) + 1) }

/-- Make an empty file, or make the file that is there empty. -/
def create (disk : Disk) (place : Place) : Option (FileId × Disk) :=
  if disk.permits place then
    match disk.nodeAt place with
    | some .dir => none
    | some .file => some (disk.fileAt place, disk.store (disk.fileAt place) [])
    | none =>
      match place.getLast? with
      | none => none
      | some name =>
        if named : Name name then
          let next := disk.add place.dropLast name named
          some (next.fileAt place, next.store (next.fileAt place) [])
        else none
  else none

def openFile (disk : Disk) (place : Place) : Option FileId :=
  if disk.permits place ∧ disk.nodeAt place = some .file then some (disk.fileAt place) else none

/-- The entries of a directory. -/
def children (disk : Disk) (place : Place) : List Entry :=
  disk.entries.filter fun entry => entry.dir == place

/-- The names in a directory, in their order. -/
def readDir (disk : Disk) (place : Place) : Option (List Text) :=
  if disk.permits place ∧ disk.nodeAt place = some .dir then
    some (((disk.children place).map Entry.name).mergeSort fun a b => decide (a ≤ b))
  else none

def drop (disk : Disk) (place : Place) : Disk :=
  { disk with entries := disk.entries.filter fun entry => entry.place != place }

/-- Remove a file, or a directory that has no entries. -/
def remove (disk : Disk) (place : Place) : Option Disk :=
  if disk.permits place then
    match disk.nodeAt place with
    | some .file => some (disk.drop place)
    | some .dir => if place ≠ [] ∧ disk.children place = [] then some (disk.drop place) else none
    | none => none
  else none

def write (disk : Disk) (file : FileId) (offset : Nat) (data : Text) : Disk :=
  disk.store file (writeAt 0 offset data (disk.content file))

end Disk

theorem resolve_of_find {disk : Disk} {current place : Place} {path : Text}
    (found : disk.find current path = some place) : resolve current path = place := by
  unfold Disk.find at found
  split at found
  · exact Option.some_inj.mp found
  · cases found

theorem content_write (disk : Disk) (file : FileId) (offset : Nat) (data : Text) :
    (disk.write file offset data).content file = writeAt 0 offset data (disk.content file) :=
  Function.update_self ..

/-! ### Disks that are alike near some places -/

/-- The place is one of these, above one or below one. -/
def near (homes : List Place) (place : Place) : Bool :=
  homes.any fun home => place.isPrefixOf home || home.isPrefixOf place

theorem near_eq_true {homes : List Place} {place : Place} :
    near homes place = true ↔ ∃ home ∈ homes, place <+: home ∨ home <+: place := by
  simp only [near, List.any_eq_true, Bool.or_eq_true, List.isPrefixOf_iff_prefix]

theorem near_of_below {homes : List Place} {home place : Place} (member : home ∈ homes)
    (below : home <+: place) : near homes place = true :=
  near_eq_true.mpr ⟨home, member, .inr below⟩

structure Agree (homes : List Place) (disk disk' : Disk) : Prop where
  entries : disk.entries.filter (fun entry => near homes entry.place) =
    disk'.entries.filter fun entry => near homes entry.place
  made : ∀ place, near homes place = true → disk.made place = disk'.made place
  content : ∀ file, near homes file.place = true → disk.content file = disk'.content file
  permits : disk.permits = disk'.permits

namespace Agree

variable {homes : List Place} {disk disk' disk'' : Disk} {place : Place}

theorem refl (homes : List Place) (disk : Disk) : Agree homes disk disk :=
  ⟨rfl, fun _ _ => rfl, fun _ _ => rfl, rfl⟩

theorem trans (first : Agree homes disk disk') (second : Agree homes disk' disk'') :
    Agree homes disk disk'' where
  entries := first.entries.trans second.entries
  made := fun place here => (first.made place here).trans (second.made place here)
  content := fun file here => (first.content file here).trans (second.content file here)
  permits := first.permits.trans second.permits

theorem nodeAt (agree : Agree homes disk disk') (here : near homes place = true) :
    disk.nodeAt place = disk'.nodeAt place := by
  have filtered : ∀ disk : Disk, disk.entries.find? (fun entry => entry.place == place) =
      (disk.entries.filter fun entry => near homes entry.place).find? fun entry =>
        entry.place == place := by
    intro disk
    rw [List.find?_filter]
    congr 1
    funext entry
    by_cases same : entry.place = place
    · rw [same, here, beq_self_eq_true]
      rfl
    · simp [beq_false_of_ne same]
  unfold Disk.nodeAt
  rw [filtered disk, filtered disk', agree.entries]

theorem fileAt (agree : Agree homes disk disk') (here : near homes place = true) :
    disk.fileAt place = disk'.fileAt place := by
  rw [Disk.fileAt, Disk.fileAt, agree.made place here]

theorem children (agree : Agree homes disk disk') {home : Place} (member : home ∈ homes)
    (below : home <+: place) : disk.children place = disk'.children place := by
  have filtered : ∀ disk : Disk, disk.children place =
      (disk.entries.filter fun entry => near homes entry.place).filter fun entry =>
        entry.dir == place := by
    intro disk
    rw [Disk.children, List.filter_filter]
    congr 1
    funext entry
    by_cases same : entry.dir = place
    · rw [near_of_below member (below.trans (same ▸ List.prefix_append _ _)), Bool.and_true]
    · rw [beq_false_of_ne same, Bool.false_and]
  rw [filtered disk, filtered disk', agree.entries]

theorem find (agree : Agree homes disk disk') {current : Place} {path : Text}
    (here : ∀ place ∈ visited current path, near homes place = true) :
    disk.find current path = disk'.find current path := by
  have same : (∀ place ∈ visited current path, disk.nodeAt place = some .dir) ↔
      ∀ place ∈ visited current path, disk'.nodeAt place = some .dir :=
    forall₂_congr fun place member => by rw [agree.nodeAt (here place member)]
  unfold Disk.find
  simp only [same]

/-! ### The calls near the places -/

theorem store (agree : Agree homes disk disk') (file : FileId) (text : Text) :
    Agree homes (disk.store file text) (disk'.store file text) := by
  refine ⟨agree.entries, agree.made, fun other here => ?_, agree.permits⟩
  show Function.update disk.content file text other = Function.update disk'.content file text other
  by_cases updated : other = file
  · rw [updated, Function.update_self, Function.update_self]
  · rw [Function.update_of_ne updated, Function.update_of_ne updated]
    exact agree.content other here

theorem write (agree : Agree homes disk disk') {file : FileId}
    (here : near homes file.place = true) (offset : Nat) (data : Text) :
    Agree homes (disk.write file offset data) (disk'.write file offset data) := by
  rw [Disk.write, Disk.write, agree.content file here]
  exact agree.store file _

theorem add (agree : Agree homes disk disk') {dir : Place} {name : Text} (named : Name name)
    (here : near homes (dir ++ [name]) = true) :
    Agree homes (disk.add dir name named) (disk'.add dir name named) := by
  refine ⟨?_, fun other near => ?_, agree.content, agree.permits⟩
  · rw [Disk.add, Disk.add, List.filter_append, List.filter_append, agree.entries]
  · show Function.update disk.made _ _ other = Function.update disk'.made _ _ other
    rw [agree.made _ here]
    by_cases updated : other = dir ++ [name]
    · rw [updated, Function.update_self, Function.update_self]
    · rw [Function.update_of_ne updated, Function.update_of_ne updated]
      exact agree.made other near

theorem create (agree : Agree homes disk disk') (here : near homes place = true) :
    (disk.create place = none ∧ disk'.create place = none) ∨
      ∃ file next next', disk.create place = some (file, next) ∧
        disk'.create place = some (file, next') ∧ Agree homes next next' := by
  unfold Disk.create
  rw [agree.permits, agree.nodeAt here, agree.fileAt here]
  split
  · split
    · exact .inl ⟨rfl, rfl⟩
    · exact .inr ⟨_, _, _, rfl, rfl, agree.store ..⟩
    · split
      · exact .inl ⟨rfl, rfl⟩
      · rename_i name last
        split
        · rename_i named
          obtain ⟨dir, rfl⟩ := List.getLast?_eq_some_iff.mp last
          rw [List.dropLast_concat]
          have added := agree.add named here
          refine .inr ⟨_, _, _, rfl, ?_, added.store ((disk.add dir name named).fileAt _) []⟩
          rw [added.fileAt here]
        · exact .inl ⟨rfl, rfl⟩
  · exact .inl ⟨rfl, rfl⟩

theorem drop (agree : Agree homes disk disk') (place : Place) :
    Agree homes (disk.drop place) (disk'.drop place) := by
  refine ⟨?_, agree.made, agree.content, agree.permits⟩
  rw [Disk.drop, Disk.drop, List.filter_comm, List.filter_comm (l := disk'.entries),
    agree.entries]

theorem openFile (agree : Agree homes disk disk') (here : near homes place = true) :
    disk.openFile place = disk'.openFile place := by
  rw [Disk.openFile, Disk.openFile, agree.permits, agree.nodeAt here, agree.fileAt here]

theorem readDir (agree : Agree homes disk disk') {home : Place} (member : home ∈ homes)
    (below : home <+: place) : disk.readDir place = disk'.readDir place := by
  rw [Disk.readDir, Disk.readDir, agree.permits, agree.nodeAt (near_of_below member below),
    agree.children member below]

theorem remove (agree : Agree homes disk disk') {home : Place} (member : home ∈ homes)
    (below : home <+: place) :
    (disk.remove place = none ∧ disk'.remove place = none) ∨
      ∃ next next', disk.remove place = some next ∧ disk'.remove place = some next' ∧
        Agree homes next next' := by
  unfold Disk.remove
  rw [agree.permits, agree.nodeAt (near_of_below member below), agree.children member below]
  split
  · split
    · exact .inr ⟨_, _, rfl, rfl, agree.drop place⟩
    · split
      · exact .inr ⟨_, _, rfl, rfl, agree.drop place⟩
      · exact .inl ⟨rfl, rfl⟩
    · exact .inl ⟨rfl, rfl⟩
  · exact .inl ⟨rfl, rfl⟩

/-! ### The calls elsewhere -/

theorem store_far {file : FileId} (far : near homes file.place = false) (disk : Disk)
    (text : Text) : Agree homes (disk.store file text) disk := by
  refine ⟨rfl, fun _ _ => rfl, fun other here => Function.update_of_ne ?_ .., rfl⟩
  intro same
  rw [same, far] at here
  cases here

theorem write_far {file : FileId} (far : near homes file.place = false) (disk : Disk)
    (offset : Nat) (data : Text) : Agree homes (disk.write file offset data) disk :=
  store_far far disk _

theorem add_far {dir : Place} {name : Text} (far : near homes (dir ++ [name]) = false)
    (named : Name name) (disk : Disk) : Agree homes (disk.add dir name named) disk := by
  refine ⟨?_, fun other here => Function.update_of_ne ?_ .., fun _ _ => rfl, rfl⟩
  · rw [Disk.add, List.filter_append, List.filter_cons_of_neg (by simp [Entry.place, far]),
      List.filter_nil, List.append_nil]
  · intro same
    rw [same, far] at here
    cases here

theorem drop_far (far : near homes place = false) (disk : Disk) :
    Agree homes (disk.drop place) disk := by
  refine ⟨?_, fun _ _ => rfl, fun _ _ => rfl, rfl⟩
  rw [Disk.drop, List.filter_filter]
  congr 1
  funext entry
  by_cases same : entry.place = place
  · rw [same, far, Bool.false_and]
  · simp [same]

theorem create_far {file : FileId} {next : Disk} (far : near homes place = false)
    (created : disk.create place = some (file, next)) : Agree homes next disk := by
  unfold Disk.create at created
  split at created
  · split at created
    · cases created
    · cases created
      exact store_far far disk []
    · split at created
      · cases created
      · rename_i name last
        split at created
        · obtain ⟨dir, rfl⟩ := List.getLast?_eq_some_iff.mp last
          rw [List.dropLast_concat] at created
          cases created
          exact (store_far far _ []).trans (add_far far _ disk)
        · cases created
  · cases created

theorem remove_far {next : Disk} (far : near homes place = false)
    (removed : disk.remove place = some next) : Agree homes next disk := by
  unfold Disk.remove at removed
  split at removed
  · split at removed
    · cases removed
      exact drop_far far disk
    · split at removed
      · cases removed
        exact drop_far far disk
      · cases removed
    · cases removed
  · cases removed

end Agree

/-- A file that was created or opened is one of its place. -/
theorem place_of_create {disk next : Disk} {place : Place} {file : FileId}
    (created : disk.create place = some (file, next)) : file.place = place := by
  unfold Disk.create at created
  split at created
  · split at created
    · cases created
    · cases created
      rfl
    · split at created
      · cases created
      · split at created
        · cases created
          rfl
        · cases created
  · cases created

theorem content_of_create {disk next : Disk} {place : Place} {file : FileId}
    (created : disk.create place = some (file, next)) : next.content file = [] := by
  unfold Disk.create at created
  split at created
  · split at created
    · cases created
    · cases created
      exact Function.update_self ..
    · split at created
      · cases created
      · split at created
        · cases created
          exact Function.update_self ..
        · cases created
  · cases created

theorem openFile_eq_some {disk : Disk} {place : Place} {file : FileId} :
    disk.openFile place = some file ↔
      (disk.permits place ∧ disk.nodeAt place = some .file) ∧ disk.fileAt place = file := by
  unfold Disk.openFile
  split
  · rename_i both
    rw [Option.some_inj]
    exact ⟨fun same => ⟨both, same⟩, fun facts => facts.2⟩
  · rename_i neither
    exact ⟨fun same => (nomatch same), fun facts => absurd facts.1 neither⟩

end Frobio.Disk
