/-
This file is about the paths the waiter hands to the host: which of them lead into
the directory of the flag `lemman_fs`.

A name of a Create or an Open is cleaned, and joined to the directory word by word;
an inode was listed as such a path with a name of the directory below it. Both lead
below the directory. The name of a Delete is handed to the host as it is, so a
request is confined just when it is no Delete of a name that leads elsewhere.
-/

import Frobio.LemMan.File

namespace Frobio.LemMan

open Coms SlashPath Disk

/-! ### Leading below the directory -/

/-- The directory of the flag. -/
def Host.root (host : Host) : Place := resolve host.current (host.lemmanFs ++ [slash])

/-- The path leads to the directory or below. -/
def Under (host : Host) (path : Text) : Prop := host.root <+: resolve host.current path

instance (host : Host) (path : Text) : Decidable (Under host path) :=
  inferInstanceAs (Decidable (_ <+: _))

theorem Host.root_of_nil {host : Host} (none : host.lemmanFs = []) : host.root = [] := by
  rw [Host.root, none]
  rfl

theorem Host.root_eq {host : Host} (some : host.lemmanFs ≠ []) :
    host.root = resolve host.current host.lemmanFs := by
  rw [Host.root, resolve_append host.current some []]
  rfl

/-- Without a directory every path is under the root. -/
theorem under_of_nil {host : Host} (none : host.lemmanFs = []) (path : Text) : Under host path := by
  rw [Under, Host.root_of_nil none]
  exact List.nil_prefix

/-- A path that is not rooted and leads below leads below the directory. -/
theorem under_append {host : Host} {path : Text} (words : List Text)
    (unrooted : rooted path = false)
    (leads : ∀ place, resolve place path = place ++ words) :
    Under host (host.lemmanFs ++ slash :: path) := by
  by_cases none : host.lemmanFs = []
  · exact under_of_nil none _
  · rw [Under, Host.root_eq none, resolve_below host.current none unrooted, leads]
    exact List.prefix_append _ _

/-! ### Names -/

theorem rooted_trimSlash_clean (name : Text) : rooted (cleanName name) = false := by
  have isClean := cleanWords_path name
  cases root : rooted name with
  | true =>
    rw [root] at isClean
    have trimmed : cleanName name =
        [slash].intercalate (cleanWords true (name.splitOn slash)) := by
      rw [cleanName, clean, root]
      rfl
    rw [trimmed]
    by_cases empty : cleanWords true (name.splitOn slash) = []
    · rw [empty]
      rfl
    · exact (splitOn_intercalate_clean isClean empty).2
  | false =>
    have unrooted : rooted (clean name) = false := (rooted_clean name).trans root
    rw [cleanName]
    cases text : clean name with
    | nil => rfl
    | cons first rest =>
      rw [text] at unrooted
      have other : first ≠ slash := by
        rintro rfl
        cases unrooted
      rwa [trimSlash, if_neg other]

/-- The words that are kept are names, and following all words is following these. -/
theorem keepWords_names {all words : List Text} (noSlash : ∀ word ∈ all, slash ∉ word)
    (kept : keepWords all = some words) :
    (∀ word ∈ words, Name word) ∧ ∀ place, walk place all = place ++ words := by
  induction all generalizing words with
  | nil =>
    cases kept
    exact ⟨fun _ member => (List.not_mem_nil member).elim, fun place => by
      rw [walk_nil, List.append_nil]⟩
  | cons word rest inductionHypothesis =>
    have later := fun {words} => @inductionHypothesis words fun other member =>
      noSlash other (List.mem_cons_of_mem _ member)
    unfold keepWords at kept
    split at kept
    · cases kept
    rename_i up
    split at kept
    · rename_i stays
      obtain ⟨names, walked⟩ := later kept
      refine ⟨names, fun place => ?_⟩
      show walk (follow place word) rest = _
      rw [follow, if_pos stays, walked]
    rename_i visible
    split at kept
    · cases kept
    obtain ⟨more, keptRest, rfl⟩ := Option.map_eq_some_iff.mp kept
    obtain ⟨names, walked⟩ := later keptRest
    have name : Name word := ⟨fun empty => visible (.inl empty), fun same => visible (.inr same), up,
      noSlash word List.mem_cons_self⟩
    refine ⟨?_, fun place => ?_⟩
    · intro other member
      rcases List.mem_cons.mp member with rfl | later
      · exact name
      · exact names other later
    · show walk (follow place word) rest = _
      rw [follow_name name, walked, List.append_assoc]
      rfl

/-- Where the words of a cleaned name are kept, it leads to them. -/
theorem resolve_cleanName {name : Text} {words : List Text}
    (kept : keepWords ((cleanName name).splitOn slash) = some words) (place : Place) :
    resolve place (cleanName name) = place ++ words := by
  rw [resolve, rooted_trimSlash_clean]
  exact (keepWords_names (fun _ => noSlash_of_mem_splitOn) kept).2 place

theorem under_jname {host : Host} {name path : Text} (joined : jname host name = some path) :
    Under host path := by
  obtain ⟨words, kept, rfl⟩ := Option.map_eq_some_iff.mp joined
  have names := (keepWords_names (fun _ => noSlash_of_mem_splitOn) kept).1
  exact under_append words (resolve_join_names [] names).1 fun place =>
    (resolve_join_names place names).2

/-! ### Inodes -/

/-- What the inodes were listed as leads below the directory. -/
def InodesUnder (host : Host) (g : Globals) : Prop :=
  ∀ i pathName, g.inodes i = some pathName → Under host (join [host.lemmanFs, pathName])

/-- What is listed is a name of the directory below the cleaned name. -/
theorem listDir_inodes {g : Globals} {clean : Text} {entries : List Text} {i : Nat}
    {pathName : Text} (listed : (listDir g clean entries).inodes i = some pathName) :
    g.inodes i = some pathName ∨ ∃ s ∈ entries, pathName = join [clean, s] := by
  have general : ∀ {entries : List Text} {listing : Listing},
      (entries.foldl (listEntry clean) listing).inodes i = some pathName →
        listing.inodes i = some pathName ∨ ∃ s ∈ entries, pathName = join [clean, s] := by
    intro entries
    induction entries with
    | nil => exact fun listed => .inl listed
    | cons s rest inductionHypothesis =>
      intro listing listed
      rcases inductionHypothesis listed with before | ⟨other, member, same⟩
      · unfold listEntry at before
        split at before
        · exact .inl before
        · dsimp only at before
          by_cases here : i = nextInode listing.nextInodeVar - 1024
          · rw [here, Function.update_self, Option.some_inj] at before
            exact .inr ⟨s, List.mem_cons_self, before.symm⟩
          · rw [Function.update_of_ne here] at before
            exact .inl before
      · exact .inr ⟨other, List.mem_cons_of_mem _ member, same⟩
  exact general listed

theorem name_of_readDir {disk : Disk} {place : Place} {entries : List Text}
    (read : disk.readDir place = some entries) : ∀ s ∈ entries, Name s := by
  unfold Disk.readDir at read
  split at read
  · obtain rfl := Option.some_inj.mp read
    intro s member
    rw [List.mem_mergeSort] at member
    obtain ⟨entry, -, rfl⟩ := List.mem_map.mp member
    exact entry.named
  · cases read

theorem under_listed {host : Host} {name path s : Text} (joined : jname host name = some path)
    (named : Name s) : Under host (join [host.lemmanFs, join [cleanName name, s]]) := by
  obtain ⟨words, kept, -⟩ := Option.map_eq_some_iff.mp joined
  by_cases none : host.lemmanFs = []
  · exact under_of_nil none _
  have leads : ∀ place, resolve place (join [cleanName name, s]) = place ++ (words ++ [s]) := by
    intro place
    rw [(resolve_join_name place (rooted_trimSlash_clean name) named).2, resolve_cleanName kept,
      List.append_assoc]
  have some : join [cleanName name, s] ≠ [] := by
    intro empty
    have at_root := leads []
    rw [empty] at at_root
    exact absurd at_root (by simp [resolve, walk, follow])
  have below : Under host (host.lemmanFs ++ slash :: join [cleanName name, s]) :=
    under_append (words ++ [s]) (resolve_join_name [] (rooted_trimSlash_clean name) named).1 leads
  rwa [join_pair none some, Under, resolve_clean]

theorem Change.inodesUnder {host : Host} {g next : Globals} {request : Request} {pd : Nat}
    {effects : List Effect} (change : Change host g request pd next effects)
    (before : InodesUnder host g) : InodesUnder host next := by
  cases change with
  | listed name path place entries p joined found read dir handle =>
    intro i pathName listed
    rcases listDir_inodes listed with old | ⟨s, member, rfl⟩
    · exact before i pathName old
    · exact under_listed joined (name_of_readDir read s member)
  | _ => exact before

theorem inodesUnder_served (host : Host) (disk : Disk) (history : List (Request × Nat)) :
    InodesUnder host (served host disk history) :=
  invariant_served host disk (InodesUnder host) (fun _ _ listed => by cases listed)
    (fun g request pd before => (change_doLemMan host g request pd).inodesUnder before) history

/-! ### Confinement -/

/-- Every path the request hands to the host leads to the directory or below. -/
def Confined (host : Host) (g : Globals) (request : Request) (pd : Nat) : Prop :=
  ∀ effect ∈ (doLemMan host g request pd).effects, ∀ path ∈ effect.path, Under host path

instance (host : Host) (g : Globals) (request : Request) (pd : Nat) :
    Decidable (Confined host g request pd) :=
  inferInstanceAs (Decidable (∀ effect ∈ (doLemMan host g request pd).effects,
    ∀ path ∈ effect.path, Under host path))

/-- A Delete removes its name, whatever the name. -/
theorem remove_of_delete {host : Host} {g : Globals} {request : Request} {pd : Nat} {name : Text}
    (header : headerLen ≤ request.input.length) (deletes : (opOf request.input).toNat = 5)
    (named : nameOf request.input = some name) :
    Effect.remove name ∈ (doLemMan host g request pd).effects := by
  have deleted : doLemMan host g request pd = lmDelete host g (regsOf request.input) name := by
    unfold doLemMan withName
    rw [if_neg (Nat.not_lt.mpr header), deletes, named]
    rfl
  rw [deleted, lmDelete]
  split
  · exact List.mem_append_left _ List.mem_cons_self
  · exact List.mem_cons_self

theorem header_of_name {input name : Text} (named : nameOf input = some name) :
    headerLen ≤ input.length := by
  unfold nameOf at named
  split at named
  · omega
  · cases named

/-- **Confinement.** After any history, a request hands the host only paths that lead to the
directory or below just when it is no Delete of a name that leads elsewhere. -/
theorem confined_iff (host : Host) (disk : Disk) (history : List (Request × Nat))
    (request : Request) (pd : Nat) :
    Confined host (served host disk history) request pd ↔
      ((opOf request.input).toNat = 5 → ∀ name ∈ nameOf request.input, Under host name) := by
  constructor
  · intro confined deletes name named
    exact confined _ (remove_of_delete (header_of_name named) deletes named) name rfl
  · intro leads effect member path at_path
    cases (change_doLemMan host _ request pd).touches effect member path at_path with
    | joined name path joined => exact under_jname joined
    | deleted name deletes named => exact leads deletes path named
    | inode i pathName listed => exact inodesUnder_served host disk history i pathName listed

/-- A disk with a file `/x` beside the directory. -/
def diskWithX : Disk :=
  { smallDisk hello with entries := ⟨[], [120], by decide, .file⟩ :: (smallDisk hello).entries }

def deleteX : Request := requestOf 5 0 0 0 0 [47, 120, 13]

/-- The file is gone, and it was not in the directory. -/
theorem not_confined_deleteX :
    ¬Confined smallHost (served smallHost diskWithX []) deleteX 7 ∧
      (served smallHost diskWithX []).disk.nodeAt [[120]] = some .file ∧
      (doLemMan smallHost (served smallHost diskWithX []) deleteX 7).globals.disk.nodeAt [[120]] =
        none := by
  decide +kernel

end Frobio.LemMan
