/-
This file is about the directory data that `LMOpen` builds, and about the inodes that it
hands out for it: which names can be read back from the data, whether the inodes are
different, and how long `SS.FDInf` finds with each of them the file it was handed out for.

Inodes are handed out in turn by all clients' Opens of directories, and there are 1024. So
what matters after a directory is opened is which names have been listed since.
-/

import Mathlib.Data.List.GetD
import Frobio.Lib.Turns
import Frobio.LemMan.Confinement

namespace Frobio.LemMan

open Coms SlashPath Disk Turns

/-! ### Reading directory data -/

/-- The names of a directory that are listed. Those of more than 29 bytes are not. -/
def listedNames (entries : List Text) : List Text := entries.filter fun s => s.length ≤ 29

/-- The name in an entry ends in the first byte that has the high bit set. -/
def entryName : Text → Text
  | [] => []
  | b :: rest => if b < 128 then b :: entryName rest else [b &&& 127]

def entryInode (entry : Text) : Nat :=
  (entry.getD 29 0).toNat * 2 ^ 16 + (entry.getD 30 0).toNat * 2 ^ 8 + (entry.getD 31 0).toNat

/-- The path that `SS.FDInf` asks the host about when it is given this inode. -/
def inodePath (host : Host) (g : Globals) (ino : Nat) : Option Text :=
  if 1024 ≤ ino ∧ ino < 2048 then (g.inodes (ino - 1024)).map fun pathName =>
    join [host.lemmanFs, pathName] else none

/-- The data is that of a directory: after the parent and the directory itself comes an entry
for each name that is listed, with an inode that leads to it. -/
def ListsRight (host : Host) (g : Globals) (place : Place) (entries : List Text) (data : Text) :
    Prop :=
  ∃ parent self chunks, data = (parent :: self :: chunks).flatten ∧
    (∀ chunk ∈ parent :: self :: chunks, chunk.length = 32) ∧
    entryName parent = dotdot ∧ entryName self = dot ∧
    chunks.map entryName = listedNames entries ∧
    ((parent :: self :: chunks).map entryInode).Nodup ∧
    ∀ chunk ∈ chunks, ∃ path ∈ inodePath host g (entryInode chunk),
      resolve host.current path = place ++ [entryName chunk]

/-- An Open of the directory at a place, by a name that leads there. -/
structure OpensDir (host : Host) (g : Globals) (request : Request) (name path : Text)
    (place : Place) (entries : List Text) : Prop where
  op : (opOf request.input).toNat = 2
  named : nameOf request.input = some name
  joined : jname host name = some path
  found : g.disk.find host.current path = some place
  read : g.disk.readDir place = some entries

/-- What a request lists, as the paths that inodes are handed out for. -/
def listedBy (host : Host) (g : Globals) (request : Request) : List Text :=
  if (opOf request.input).toNat = 2 then
    match nameOf request.input with
    | none => []
    | some name =>
      match ((jname host name).bind (g.disk.find host.current)).bind g.disk.readDir with
      | none => []
      | some entries => (listedNames entries).map fun s => join [cleanName name, s]
  else []

/-- The waiter after more requests of any clients. -/
def servedFrom (host : Host) (g : Globals) (later : List (Request × Nat)) : Globals :=
  later.foldl (fun g entry => (doLemMan host g entry.1 entry.2).globals) g

/-- What is listed by some requests, one after the other. -/
def listedAlong (host : Host) : Globals → List (Request × Nat) → List Text
  | _, [] => []
  | g, entry :: rest =>
    listedBy host g entry.1 ++ listedAlong host (doLemMan host g entry.1 entry.2).globals rest

/-! ### Entries -/

/-- The inode that is handed out after `i` others, from the last one handed out on. -/
def inodeAfter (last i : Nat) : Nat := 1024 + (last - 1023 + i) % 1024

def InodeRange (ino : Nat) : Prop := 1024 ≤ ino ∧ ino < 2048

theorem inodeRange_inodeAfter (last i : Nat) : InodeRange (inodeAfter last i) := by
  have turn := Nat.mod_lt (last - 1023 + i) (by decide : 0 < 1024)
  unfold InodeRange inodeAfter
  omega

theorem nextInode_eq {last : Nat} (range : InodeRange last) : nextInode last = inodeAfter last 0 := by
  obtain ⟨above, within⟩ := range
  unfold nextInode inodeAfter
  split <;> omega

theorem length_dirChunk {s : Text} (nonempty : s ≠ []) (short : s.length ≤ 29) (ino : Nat) :
    (dirChunk s ino).length = 32 := by
  have some : 0 < s.length := List.length_pos_iff.mpr nonempty
  simp only [dirChunk, List.getLast?_eq_some_getLast nonempty, Option.map_some,
    Option.toList_some, List.length_append, List.length_dropLast, List.length_replicate,
    List.length_cons, List.length_nil]
  omega

theorem entryInode_dirChunk {s : Text} (nonempty : s ≠ []) (short : s.length ≤ 29) {ino : Nat}
    (range : InodeRange ino) : entryInode (dirChunk s ino) = ino := by
  have some : 0 < s.length := List.length_pos_iff.mpr nonempty
  have front : ((s.dropLast ++ (s.getLast?.map (· ||| 0x80)).toList) ++
      List.replicate (29 - s.length) 0).length = 29 := by
    simp only [List.getLast?_eq_some_getLast nonempty, Option.map_some, Option.toList_some,
      List.length_append, List.length_dropLast, List.length_replicate, List.length_cons,
      List.length_nil]
    omega
  have byte (k : Nat) : (dirChunk s ino).getD (29 + k) 0 =
      [UInt8.ofNat (ino / 2 ^ 16), UInt8.ofNat (ino / 2 ^ 8), UInt8.ofNat ino].getD k 0 := by
    rw [dirChunk, List.getD_append_right _ _ _ _ (by omega), front, Nat.add_sub_cancel_left]
  obtain ⟨above, within⟩ := range
  rw [entryInode, byte 0, byte 1, byte 2]
  simp only [List.getD_cons_zero, List.getD_cons_succ, UInt8.toNat_ofNat']
  omega

theorem and_or_high (b : UInt8) : (b ||| 128) &&& 127 = b &&& 127 ∧ ¬b ||| 128 < 128 := by
  have all : ∀ n < 256, (UInt8.ofNat n ||| 128) &&& 127 = UInt8.ofNat n &&& 127 ∧
      ¬UInt8.ofNat n ||| 128 < 128 := by decide +kernel
  have here := all b.toNat b.toNat_lt
  rwa [UInt8.ofNat_toNat] at here

theorem and_low_iff (b : UInt8) : b &&& 127 = b ↔ b < 128 := by
  have all : ∀ n < 256, UInt8.ofNat n &&& 127 = UInt8.ofNat n ↔ UInt8.ofNat n < 128 := by
    decide +kernel
  have here := all b.toNat b.toNat_lt
  rwa [UInt8.ofNat_toNat] at here

/-- A name of seven-bit bytes is read back, and no other. -/
theorem entryName_terminated_iff {s : Text} (nonempty : s ≠ []) (rest : Text) :
    entryName ((s.dropLast ++ (s.getLast?.map (· ||| 0x80)).toList) ++ rest) = s ↔
      ∀ b ∈ s, b < 128 := by
  induction s with
  | nil => exact absurd rfl nonempty
  | cons b s inductionHypothesis =>
    rw [List.forall_mem_cons]
    by_cases last : s = []
    · subst last
      show entryName ((b ||| 128) :: rest) = [b] ↔ _
      rw [entryName, if_neg (and_or_high b).2, (and_or_high b).1, List.cons.injEq, and_low_iff]
      simp
    · have split : (b :: s).dropLast ++ ((b :: s).getLast?.map (· ||| 0x80)).toList =
          b :: (s.dropLast ++ (s.getLast?.map (· ||| 0x80)).toList) := by
        rw [List.dropLast_cons_of_ne_nil last, List.getLast?_cons, List.cons_append,
          List.getLast?_eq_some_getLast last]
        rfl
      rw [split, List.cons_append, entryName]
      by_cases low : b < 128
      · rw [if_pos low, List.cons.injEq, inductionHypothesis last]
        simp [low]
      · rw [if_neg low]
        refine iff_of_false (fun same => last ?_) (fun each => low each.1)
        exact (List.cons.inj same).2.symm

theorem entryName_dirChunk_iff {s : Text} (nonempty : s ≠ []) (ino : Nat) :
    entryName (dirChunk s ino) = s ↔ ∀ b ∈ s, b < 128 := by
  rw [dirChunk, List.append_assoc]
  exact entryName_terminated_iff nonempty _

/-! ### One listing -/

theorem name_of_listed {disk : Disk} {place : Place} {entries : List Text}
    (read : disk.readDir place = some entries) {s : Text} (member : s ∈ listedNames entries) :
    Name s ∧ s.length ≤ 29 := by
  obtain ⟨within, short⟩ := List.mem_filter.mp member
  exact ⟨name_of_readDir read s within, of_decide_eq_true short⟩

/-- The inode that was handed out last when `count` more have been. -/
def lastAfter (last count : Nat) : Nat := 1024 + (last - 1024 + count) % 1024

theorem inodeRange_lastAfter (last count : Nat) : InodeRange (lastAfter last count) := by
  have turn := Nat.mod_lt (last - 1024 + count) (by decide : 0 < 1024)
  unfold InodeRange lastAfter
  omega

theorem nextInode_lastAfter {last : Nat} (range : InodeRange last) (count : Nat) :
    nextInode (lastAfter last count) = inodeAfter last count ∧
      inodeAfter last count = lastAfter last (count + 1) := by
  obtain ⟨above, within⟩ := range
  rw [nextInode_eq (inodeRange_lastAfter last count)]
  unfold inodeAfter lastAfter
  omega

/-- What a listing adds: paths in the table of inodes, and chunks at the end of the data. -/
theorem listDir_eq {g : Globals} (range : InodeRange g.nextInodeVar) (clean : Text)
    (entries : List Text) : listDir g clean entries =
      { inodes := fill 1024 g.inodes (g.nextInodeVar - 1023)
          ((listedNames entries).map fun s => join [clean, s])
        nextInodeVar := lastAfter g.nextInodeVar (listedNames entries).length
        buf := dirHead ++ ((listedNames entries).mapIdx fun i s =>
          dirChunk s (inodeAfter g.nextInodeVar i)).flatten } := by
  induction entries using List.reverseRecOn with
  | nil =>
    have same : lastAfter g.nextInodeVar 0 = g.nextInodeVar := by
      obtain ⟨above, within⟩ := range
      unfold lastAfter
      omega
    show (⟨g.inodes, g.nextInodeVar, dirHead⟩ : Listing) = ⟨g.inodes, lastAfter _ 0, dirHead ++ []⟩
    rw [same, List.append_nil]
  | append_singleton entries s inductionHypothesis =>
    have step : listDir g clean (entries ++ [s]) = listEntry clean (listDir g clean entries) s :=
      List.foldl_append
    rw [step, inductionHypothesis, listEntry]
    by_cases long : 29 < s.length
    · have names : listedNames (entries ++ [s]) = listedNames entries := by
        rw [listedNames, List.filter_append, List.filter_singleton,
          decide_eq_false (Nat.not_le.mpr long), cond_false, List.append_nil]
        rfl
      rw [if_pos long, names]
    · have names : listedNames (entries ++ [s]) = listedNames entries ++ [s] := by
        rw [listedNames, List.filter_append, List.filter_singleton,
          decide_eq_true (Nat.not_lt.mp long), cond_true]
        rfl
      obtain ⟨next, last⟩ := nextInode_lastAfter range (listedNames entries).length
      have slot : inodeAfter g.nextInodeVar (listedNames entries).length - 1024 =
          (g.nextInodeVar - 1023 + (listedNames entries).length) % 1024 :=
        Nat.add_sub_cancel_left ..
      rw [if_neg long, names]
      dsimp only
      rw [next, slot, List.map_append, List.map_singleton, fill_concat, List.length_map,
        List.length_append, List.length_singleton, ← last, List.mapIdx_concat, List.flatten_append,
        List.flatten_singleton, List.append_assoc]

/-! ### Inodes are handed out in turn -/

/-- Inodes have been handed out for some paths, and nothing else was done to the table. -/
structure Hands (g next : Globals) (paths : List Text) : Prop where
  inodes : next.inodes = fill 1024 g.inodes (g.nextInodeVar - 1023) paths
  last : next.nextInodeVar = lastAfter g.nextInodeVar paths.length

section

variable {host : Host} {g next : Globals} {request : Request} {pd : Nat} {regs : LMRegs}

theorem Hands.nothing (range : InodeRange g.nextInodeVar) (inodes : next.inodes = g.inodes)
    (last : next.nextInodeVar = g.nextInodeVar) : Hands g next [] := by
  obtain ⟨above, within⟩ := range
  refine ⟨inodes, last.trans ?_⟩
  unfold lastAfter
  rw [List.length_nil]
  omega

theorem Hands.append {middle : Globals} {first second : List Text}
    (range : InodeRange g.nextInodeVar) (before : Hands g middle first)
    (after : Hands middle next second) : Hands g next (first ++ second) := by
  obtain ⟨above, within⟩ := range
  refine ⟨?_, ?_⟩
  · rw [after.inodes, before.inodes, before.last, fill_append]
    refine fill_congr ?_ second
    unfold lastAfter
    omega
  · rw [after.last, before.last, List.length_append]
    unfold lastAfter
    omega

theorem Hands.range {paths : List Text} (hands : Hands g next paths) :
    InodeRange next.nextInodeVar := by
  rw [hands.last]
  exact inodeRange_lastAfter ..

theorem hands_lmGetStt (range : InodeRange g.nextInodeVar) (info : FileInfo) :
    Hands g (lmGetStt host g pd info regs).globals [] := by
  have same : (lmGetStt host g pd info regs).globals = g := by
    unfold lmGetStt fdInf
    dsimp only
    repeat' split
    all_goals rfl
  rw [same]
  exact .nothing range rfl rfl

theorem hands_lmRead (range : InodeRange g.nextInodeVar) (linely : Bool) :
    Hands g (lmRead g pd regs linely).globals [] := by
  unfold lmRead
  split
  · exact .nothing range rfl rfl
  · split
    · exact .nothing range rfl rfl
    · split
      · exact .nothing range rfl rfl
      · exact .nothing range rfl rfl

theorem hands_lmWrite (range : InodeRange g.nextInodeVar) (payIn : Text) :
    Hands g (lmWrite g pd regs payIn).globals [] := by
  unfold lmWrite
  split
  · exact .nothing range rfl rfl
  · repeat' split
    all_goals exact .nothing range rfl rfl

theorem hands_createPath (range : InodeRange g.nextInodeVar) (mode : UInt8) (name path : Text) :
    Hands g (createPath host g pd regs mode name path).globals [] := by
  unfold createPath
  split
  · exact .nothing range rfl rfl
  · split
    · exact .nothing range rfl rfl
    · exact .nothing range rfl rfl

theorem hands_openPath (range : InodeRange g.nextInodeVar) (mode : UInt8) (name path : Text) :
    Hands g (openPath host g pd regs mode name path).globals
      (match (g.disk.find host.current path).bind g.disk.readDir with
        | none => []
        | some entries => (listedNames entries).map fun s => join [cleanName name, s]) := by
  unfold openPath
  cases found : g.disk.find host.current path with
  | none => exact .nothing range rfl rfl
  | some place =>
    rw [Option.bind_some]
    cases node : g.disk.nodeAt place with
    | none =>
      have unread : g.disk.readDir place = none := by simp [Disk.readDir, node]
      simp only [node, unread]
      exact .nothing range rfl rfl
    | some node' =>
      cases node' with
      | dir =>
        simp only [node]
        cases read : g.disk.readDir place with
        | none => exact .nothing range rfl rfl
        | some entries =>
          refine ⟨?_, ?_⟩
          · show (listDir g (cleanName name) entries).inodes = _
            rw [listDir_eq range]
          · show (listDir g (cleanName name) entries).nextInodeVar = _
            rw [listDir_eq range, List.length_map]
      | file =>
        have unread : g.disk.readDir place = none := by simp [Disk.readDir, node]
        simp only [node, unread]
        split
        · exact .nothing range rfl rfl
        · exact .nothing range rfl rfl

theorem hands_lmOpen (range : InodeRange g.nextInodeVar) (mode : UInt8) (name : Text) :
    Hands g (lmOpen host g pd regs mode name false).globals
      (match ((jname host name).bind (g.disk.find host.current)).bind g.disk.readDir with
        | none => []
        | some entries => (listedNames entries).map fun s => join [cleanName name, s]) := by
  unfold lmOpen
  cases joined : jname host name with
  | none => exact .nothing range rfl rfl
  | some path => exact hands_openPath range mode name path

variable (host request pd) in
theorem hands_doLemMan (range : InodeRange g.nextInodeVar) :
    Hands g (doLemMan host g request pd).globals (listedBy host g request) := by
  have named {handle : Text → Outcome} (each : ∀ name, Hands g (handle name).globals []) :
      Hands g (withName g request.input handle).globals [] := by
    unfold withName
    split
    · exact .nothing range rfl rfl
    · exact each _
  by_cases opens : (opOf request.input).toNat = 2
  · rw [listedBy, if_pos opens]
    unfold doLemMan
    simp only [opens]
    cases name : nameOf request.input with
    | none =>
      split
      · exact .nothing range rfl rfl
      · rw [withName, name]
        exact .nothing range rfl rfl
    | some name' =>
      rw [if_neg (Nat.not_lt.mpr (header_of_name name)), withName, name]
      exact hands_lmOpen range _ name'
  · rw [listedBy, if_neg opens]
    unfold doLemMan
    dsimp only
    split
    · exact .nothing range rfl rfl
    · split
      · refine named fun name => ?_
        unfold lmOpen
        split
        · exact .nothing range rfl rfl
        · exact hands_createPath range ..
      · rename_i is
        exact absurd is opens
      · exact named fun _ => .nothing range rfl rfl
      · exact named fun _ => .nothing range rfl rfl
      · refine named fun name => ?_
        unfold lmDelete
        split
        · exact .nothing range rfl rfl
        · exact .nothing range rfl rfl
      · unfold lmSeek
        split
        · exact .nothing range rfl rfl
        · exact .nothing range rfl rfl
      · exact hands_lmRead range false
      · exact hands_lmWrite range _
      · exact hands_lmRead range true
      · exact hands_lmWrite range _
      · exact hands_lmGetStt range _
      · unfold lmClose
        split
        · exact .nothing range rfl rfl
        · exact .nothing range rfl rfl
      · split
        · exact .nothing range rfl rfl
        · exact .nothing range rfl rfl

end

theorem hands_servedFrom (host : Host) {g : Globals} (range : InodeRange g.nextInodeVar)
    (later : List (Request × Nat)) : Hands g (servedFrom host g later) (listedAlong host g later) := by
  induction later generalizing g with
  | nil => exact .nothing range rfl rfl
  | cons entry rest inductionHypothesis =>
    have first := hands_doLemMan host entry.1 entry.2 range
    exact first.append range (inductionHypothesis first.range)

theorem inodeRange_served (host : Host) (disk : Disk) (history : List (Request × Nat)) :
    InodeRange (served host disk history).nextInodeVar :=
  invariant_served host disk (fun g => InodeRange g.nextInodeVar)
    (show InodeRange 1024 by unfold InodeRange; decide)
    (fun _ request pd range => (hands_doLemMan host request pd range).range) history

/-! ### A directory that was opened -/

/-- The names can be read back, there are inodes enough for them, and the directory of the flag
is where an inode is looked for. -/
def FitsTable (host : Host) (entries : List Text) : Prop :=
  (∀ s ∈ listedNames entries, ∀ b ∈ s, b < 128) ∧ (listedNames entries).length ≤ 1024 ∧
    (listedNames entries = [] ∨ host.lemmanFs ≠ [] ∨ host.current = [])

instance (host : Host) (entries : List Text) : Decidable (FitsTable host entries) :=
  inferInstanceAs (Decidable (_ ∧ _ ∧ _))

/-- The names are listed before the paths. Whenever it is the turn of a name again, the path
leads to the file of that name. -/
def NotTaken (host : Host) (place : Place) (names paths : List Text) : Prop :=
  ∀ j path, paths[j]? = some path → ∀ s, names[(names.length + j) % 1024]? = some s →
    resolve host.current (join [host.lemmanFs, path]) = place ++ [s]

/-- As long as there are inodes for all, it is nobody's turn again. -/
theorem notTaken_of_le {host : Host} {place : Place} {names paths : List Text}
    (enough : names.length + paths.length ≤ 1024) : NotTaken host place names paths := by
  intro j path listed s named
  have inside := (List.getElem?_eq_some_iff.mp listed).1
  have before := (List.getElem?_eq_some_iff.mp named).1
  rw [Nat.mod_eq_of_lt (by omega)] at before
  omega

theorem flatten_inj_of_length {chunks chunks' : List Text} {size : Nat} (some : 0 < size)
    (each : ∀ chunk ∈ chunks, chunk.length = size) (each' : ∀ chunk ∈ chunks', chunk.length = size)
    (same : chunks.flatten = chunks'.flatten) : chunks = chunks' := by
  have empty {chunk : Text} {rest : List Text} (whole : chunk.length = size)
      (nothing : [] = (chunk :: rest).flatten) : False := by
    have lengths := congrArg List.length nothing
    rw [List.flatten_cons, List.length_append, whole, List.length_nil] at lengths
    omega
  induction chunks generalizing chunks' with
  | nil =>
    cases chunks' with
    | nil => rfl
    | cons chunk' rest' => exact (empty (each' chunk' List.mem_cons_self) same).elim
  | cons chunk rest inductionHypothesis =>
    cases chunks' with
    | nil => exact (empty (each chunk List.mem_cons_self) same.symm).elim
    | cons chunk' rest' =>
      rw [List.forall_mem_cons] at each each'
      obtain ⟨rfl, tails⟩ := List.append_inj same (each.1.trans each'.1.symm)
      rw [inductionHypothesis each.2 each'.2 tails]

/-- An inode leads to the file it was handed out for just when the flag's directory is not the
current one by default. -/
theorem resolve_listed_iff {host : Host} {g : Globals} {name path s : Text} {place : Place}
    (joined : jname host name = some path) (found : g.disk.find host.current path = some place)
    (named : Name s) :
    resolve host.current (join [host.lemmanFs, join [cleanName name, s]]) = place ++ [s] ↔
      host.lemmanFs ≠ [] ∨ host.current = [] := by
  obtain ⟨words, kept, rfl⟩ := Option.map_eq_some_iff.mp joined
  have names := (keepWords_names (fun _ => noSlash_of_mem_splitOn) kept).1
  obtain ⟨unrooted, leads⟩ := resolve_join_name host.current (rooted_trimSlash_clean name) named
  have below (place : Place) : resolve place (join [cleanName name, s]) = place ++ (words ++ [s]) := by
    rw [(resolve_join_name place (rooted_trimSlash_clean name) named).2, resolve_cleanName kept,
      List.append_assoc]
  have some : join [cleanName name, s] ≠ [] := by
    intro empty
    have at_root := below []
    rw [empty] at at_root
    exact absurd at_root (by simp [resolve, walk, follow])
  have here := resolve_of_find found
  by_cases none : host.lemmanFs = []
  · have at_place : place = words := by
      have root : rooted ([] ++ slash :: join words) = true := rfl
      rw [← here, none, resolve, root, if_pos rfl, List.splitOn_append_cons_self, walk_append]
      have leads := (resolve_join_names [] names).2
      rw [resolve, (resolve_join_names [] names).1] at leads
      exact leads
    have kept' : [host.lemmanFs, join [cleanName name, s]].filter (· ≠ []) =
        [join [cleanName name, s]] := by simp [none, some]
    have alone : join [host.lemmanFs, join [cleanName name, s]] =
        clean (join [cleanName name, s]) := by
      rw [join.eq_def [host.lemmanFs, _], kept']
      simp
    rw [alone, resolve_clean, below, at_place]
    simp [none]
  · rw [join_pair none some, resolve_clean, resolve_below host.current none unrooted, below, ← here,
      resolve_below host.current none (resolve_join_names [] names).1,
      (resolve_join_names _ names).2, List.append_assoc]
    simp [none]

section

variable {host : Host} {g : Globals} {request : Request} {pd : Nat} {name path : Text}
  {place : Place} {entries : List Text}

/-- The chunks of the directory data, from the last inode handed out on. -/
def chunksFrom (last : Nat) (names : List Text) : List Text :=
  names.mapIdx fun i s => dirChunk s (inodeAfter last i)

variable (pd) in
/-- The path that is kept. -/
theorem OpensDir.found_path (opens : OpensDir host g request name path place entries)
    (range : InodeRange g.nextInodeVar) :
    ∃ p, (doLemMan host g request pd).globals.lmPaths pd = some p ∧ p.isDir = true ∧
      p.dirData = dirHead ++ (chunksFrom g.nextInodeVar (listedNames entries)).flatten := by
  have header := header_of_name opens.named
  have dir : g.disk.nodeAt place = some .dir := by
    have read := opens.read
    unfold Disk.readDir at read
    split at read
    · rename_i permitted
      exact permitted.2
    · cases read
  have outcome : doLemMan host g request pd =
      openPath host g pd (regsOf request.input) (regsOf request.input).ra name path := by
    unfold doLemMan
    simp only [opens.op]
    rw [if_neg (Nat.not_lt.mpr header), withName, opens.named]
    show lmOpen host g pd _ _ name false = _
    rw [lmOpen, opens.joined]
    rfl
  rw [outcome, openPath, opens.found]
  simp only [dir, opens.read]
  refine ⟨_, setPath_self .., rfl, ?_⟩
  show (listDir g (cleanName name) entries).buf = _
  rw [listDir_eq range]
  rfl

variable (pd) in
theorem OpensDir.hands (opens : OpensDir host g request name path place entries)
    (range : InodeRange g.nextInodeVar) : Hands g (doLemMan host g request pd).globals
      ((listedNames entries).map fun s => join [cleanName name, s]) := by
  have lists : listedBy host g request =
      (listedNames entries).map fun s => join [cleanName name, s] := by
    simp only [listedBy, opens.op, opens.named, opens.joined, Option.bind_some, opens.found,
      opens.read, if_true]
  exact lists ▸ hands_doLemMan host request pd range

theorem mem_chunksFrom {last : Nat} {names : List Text} {chunk : Text} :
    chunk ∈ chunksFrom last names ↔
      ∃ i, ∃ inside : i < names.length, dirChunk names[i] (inodeAfter last i) = chunk :=
  List.mem_mapIdx

theorem length_chunksFrom (last : Nat) (names : List Text) :
    (chunksFrom last names).length = names.length :=
  List.length_mapIdx

section

variable {names : List Text} (each : ∀ s ∈ names, Name s ∧ s.length ≤ 29) (last : Nat)

include each

theorem length_of_mem_chunksFrom {chunk : Text} (member : chunk ∈ chunksFrom last names) :
    chunk.length = 32 := by
  obtain ⟨i, inside, rfl⟩ := mem_chunksFrom.mp member
  obtain ⟨named, short⟩ := each _ (List.getElem_mem inside)
  exact length_dirChunk named.1 short _

theorem map_entryName_iff : (chunksFrom last names).map entryName = names ↔
    ∀ s ∈ names, ∀ b ∈ s, b < 128 := by
  have at_each (i : Nat) (inside : i < names.length) :
      entryName (dirChunk names[i] (inodeAfter last i)) = names[i] ↔ ∀ b ∈ names[i], b < 128 :=
    entryName_dirChunk_iff (each _ (List.getElem_mem inside)).1.1 _
  constructor
  · intro same s member
    obtain ⟨i, inside, rfl⟩ := List.getElem_of_mem member
    refine (at_each i inside).mp ?_
    have here := List.getElem_of_eq same (by rw [List.length_map, length_chunksFrom]; exact inside)
    simpa [chunksFrom] using here
  · intro low
    refine List.ext_getElem (by rw [List.length_map, length_chunksFrom]) fun i _ inside => ?_
    simpa [chunksFrom] using (at_each i inside).mpr (low _ (List.getElem_mem inside))

theorem map_entryInode :
    (chunksFrom last names).map entryInode = (List.range names.length).map (inodeAfter last) := by
  refine List.ext_getElem (by simp [length_chunksFrom]) fun i _ inside => ?_
  have inside' : i < names.length := by simpa using inside
  obtain ⟨named, short⟩ := each _ (List.getElem_mem inside')
  simpa [chunksFrom] using entryInode_dirChunk named.1 short (inodeRange_inodeAfter last i)

end

/-- The inodes are different just when there are enough of them. -/
theorem nodup_inodes_iff (last count : Nat) :
    (42 :: 43 :: (List.range count).map (inodeAfter last)).Nodup ↔ count ≤ 1024 := by
  have high : ∀ ino ∈ (List.range count).map (inodeAfter last), 1024 ≤ ino := by
    intro ino member
    obtain ⟨i, -, rfl⟩ := List.mem_map.mp member
    exact (inodeRange_inodeAfter last i).1
  have shifted : (List.range count).map (inodeAfter last) =
      ((List.range count).map fun i => (last - 1023 + i) % 1024).map (1024 + ·) := by
    rw [List.map_map]
    rfl
  have apart (ino : Nat) (low : ino < 1024) : ino ∉ (List.range count).map (inodeAfter last) :=
    fun member => absurd (high ino member) (Nat.not_le.mpr low)
  rw [List.nodup_cons, List.nodup_cons, List.mem_cons, shifted,
    List.nodup_map_iff (add_right_injective 1024), nodup_slots (by decide), ← shifted]
  simp [-List.mem_map, apart]

variable (host) in
/-- With inodes enough, each inode of a listing has the path of the name it was handed out for,
or one that was listed when it was the name's turn again. -/
theorem exists_inodePath {next final : Globals} {names theirs : List Text} {clean : Text}
    (range : InodeRange g.nextInodeVar)
    (mine : Hands g next (names.map fun s => join [clean, s])) (later : Hands next final theirs)
    (enough : names.length ≤ 1024) {i : Nat} (inside : i < names.length) :
    ∃ pathName, inodePath host final (inodeAfter g.nextInodeVar i) =
        some (join [host.lemmanFs, pathName]) ∧
      (pathName = join [clean, names[i]] ∨
        ∃ j, theirs[j]? = some pathName ∧ (names.length + j) % 1024 = i) := by
  have hands := mine.append range later
  obtain ⟨j, pathName, found, turn, filled⟩ := @exists_fill Text 1024 g.inodes
    (g.nextInodeVar - 1023) ((names.map fun s => join [clean, s]) ++ theirs) i
    (by rw [List.length_append, List.length_map]; omega)
  have slot : inodeAfter g.nextInodeVar i - 1024 = (g.nextInodeVar - 1023 + i) % 1024 :=
    Nat.add_sub_cancel_left ..
  refine ⟨pathName, ?_, ?_⟩
  · obtain ⟨above, within⟩ := inodeRange_inodeAfter g.nextInodeVar i
    rw [inodePath, if_pos ⟨above, within⟩, hands.inodes, slot, filled]
    rfl
  · rw [Nat.mod_eq_of_lt (by omega : i < 1024)] at turn
    by_cases own : j < names.length
    · rw [Nat.mod_eq_of_lt (by omega)] at turn
      subst turn
      rw [List.getElem?_append_left (by rwa [List.length_map]), List.getElem?_map,
        List.getElem?_eq_getElem inside] at found
      exact .inl (Option.some_inj.mp found).symm
    · rw [List.getElem?_append_right (by rw [List.length_map]; omega), List.length_map] at found
      refine .inr ⟨j - names.length, found, ?_⟩
      rw [← turn, Nat.add_sub_cancel' (Nat.not_lt.mp own)]

variable (host) in
/-- The data that an Open makes is right after later requests. -/
theorem OpensDir.listsRight (opens : OpensDir host g request name path place entries)
    (range : InodeRange g.nextInodeVar) {next final : Globals} {theirs : List Text}
    (mine : Hands g next ((listedNames entries).map fun s => join [cleanName name, s]))
    (later : Hands next final theirs) (fits : FitsTable host entries)
    (free : NotTaken host place (listedNames entries) theirs) :
    ListsRight host final place entries
      (dirHead ++ (chunksFrom g.nextInodeVar (listedNames entries)).flatten) := by
  have each := fun s member => name_of_listed opens.read (s := s) member
  obtain ⟨low, enough, flag⟩ := fits
  refine ⟨[46, 174] ++ List.replicate 29 0 ++ [42], [174] ++ List.replicate 30 0 ++ [43],
    chunksFrom g.nextInodeVar (listedNames entries), ?_, ?_, by decide, by decide,
    (map_entryName_iff each _).mpr low, ?_, ?_⟩
  · rw [dirHead, List.append_assoc]
    rfl
  · refine List.forall_mem_cons.mpr ⟨rfl, List.forall_mem_cons.mpr ⟨rfl, ?_⟩⟩
    exact fun chunk member => length_of_mem_chunksFrom each _ member
  · rw [List.map_cons, List.map_cons, map_entryInode each]
    exact (nodup_inodes_iff _ _).mpr enough
  · intro chunk member
    obtain ⟨i, inside, rfl⟩ := mem_chunksFrom.mp member
    obtain ⟨named, short⟩ := each _ (List.getElem_mem inside)
    obtain ⟨pathName, asked, own | ⟨j, listed, turn⟩⟩ :=
      exists_inodePath host range mine later enough inside
    all_goals
      rw [entryInode_dirChunk named.1 short (inodeRange_inodeAfter _ _),
        (entryName_dirChunk_iff named.1 _).mpr (low _ (List.getElem_mem inside))]
      refine ⟨_, asked, ?_⟩
    · rw [own]
      refine (resolve_listed_iff opens.joined opens.found named).mpr (flag.resolve_left ?_)
      exact List.ne_nil_of_length_pos (Nat.zero_lt_of_lt inside)
    · refine free j pathName listed _ ?_
      rw [turn, List.getElem?_eq_getElem inside]

/-- The data is right when it has been made, just when the directory fits the table. -/
theorem OpensDir.lists_iff (opens : OpensDir host g request name path place entries)
    (range : InodeRange g.nextInodeVar) {next : Globals}
    (mine : Hands g next ((listedNames entries).map fun s => join [cleanName name, s])) :
    ListsRight host next place entries
      (dirHead ++ (chunksFrom g.nextInodeVar (listedNames entries)).flatten) ↔
        FitsTable host entries := by
  have each := fun s member => name_of_listed opens.read (s := s) member
  have nothing : Hands next next [] := .nothing mine.range rfl rfl
  constructor
  · rintro ⟨parent, self, chunks, same, whole, -, -, names, apart, leads⟩
    have split : ([46, 174] ++ List.replicate 29 0 ++ [42]) :: ([174] ++ List.replicate 30 0 ++ [43])
        :: chunksFrom g.nextInodeVar (listedNames entries) = parent :: self :: chunks := by
      refine flatten_inj_of_length (by decide : 0 < 32) ?_ whole (Eq.trans ?_ same)
      · refine List.forall_mem_cons.mpr ⟨rfl, List.forall_mem_cons.mpr ⟨rfl, ?_⟩⟩
        exact fun chunk member => length_of_mem_chunksFrom each _ member
      · rw [dirHead, List.append_assoc]
        rfl
    obtain ⟨rfl, rest⟩ := List.cons.inj split
    obtain ⟨rfl, rfl⟩ := List.cons.inj rest
    have low := (map_entryName_iff each _).mp names
    have enough : (listedNames entries).length ≤ 1024 := by
      rw [List.map_cons, List.map_cons, map_entryInode each] at apart
      exact (nodup_inodes_iff _ _).mp apart
    refine ⟨low, enough, ?_⟩
    by_cases empty : listedNames entries = []
    · exact .inl empty
    · have inside : 0 < (listedNames entries).length := List.length_pos_iff.mpr empty
      obtain ⟨named, short⟩ := each _ (List.getElem_mem inside)
      obtain ⟨asked, member, led⟩ := leads _ (mem_chunksFrom.mpr ⟨0, inside, rfl⟩)
      obtain ⟨pathName, asked', own | ⟨j, listed, -⟩⟩ :=
        exists_inodePath host range mine nothing enough inside
      · rw [entryInode_dirChunk named.1 short (inodeRange_inodeAfter _ _), asked'] at member
        rw [(entryName_dirChunk_iff named.1 _).mpr (low _ (List.getElem_mem inside)),
          ← Option.some_inj.mp member, own] at led
        exact .inr ((resolve_listed_iff opens.joined opens.found named).mp led)
      · cases listed
  · exact fun fits => opens.listsRight host range mine nothing fits fun j path listed => by
      cases listed

end

/-- When a directory is opened the data is right just when the directory fits the table, and
it stays right as long as no inode of the directory is handed out for another file. -/
theorem listsRight_iff (host : Host) (disk : Disk) (before : List (Request × Nat))
    (request : Request) (pd : Nat) (name path : Text) (place : Place) (entries : List Text)
    (opens : OpensDir host (served host disk before) request name path place entries) :
    ∃ p, (served host disk (before ++ [(request, pd)])).lmPaths pd = some p ∧ p.isDir = true ∧
      (ListsRight host (served host disk (before ++ [(request, pd)])) place entries p.dirData ↔
        FitsTable host entries) ∧
      ∀ later, FitsTable host entries →
        NotTaken host place (listedNames entries)
          (listedAlong host (served host disk (before ++ [(request, pd)])) later) →
        ListsRight host (served host disk (before ++ [(request, pd)] ++ later)) place entries
          p.dirData := by
  have range := inodeRange_served host disk before
  have next : served host disk (before ++ [(request, pd)]) =
      (doLemMan host (served host disk before) request pd).globals := List.foldl_append
  have final (later : List (Request × Nat)) : served host disk (before ++ [(request, pd)] ++ later) =
      servedFrom host (doLemMan host (served host disk before) request pd).globals later := by
    rw [← next]
    exact List.foldl_append
  have mine := opens.hands pd range
  obtain ⟨p, found, dir, data⟩ := opens.found_path pd range
  rw [next]
  refine ⟨p, found, dir, ?_, fun later fits free => ?_⟩
  · rw [data]
    exact opens.lists_iff range mine
  · rw [data, final]
    exact opens.listsRight host range mine (hands_servedFrom host mine.range later) fits free

/-- Open the directory of the flag. -/
def openRoot : Request := requestOf 2 1 0 0 0 [47, 13]

theorem opensDir_openRoot :
    OpensDir smallHost (served smallHost (smallDisk hello) []) openRoot [47] [108, 102, 47]
      [[108, 102]] [[97]] := by
  refine ⟨by decide, by decide +kernel, by decide +kernel, by decide +kernel, ?_⟩
  simp [Disk.readDir, served, Globals.start, smallDisk, Disk.nodeAt, Entry.place, Disk.children]

/-- The one file of the directory is found by its inode, also after the directory has been
opened once more. -/
theorem listsRight_openRoot :
    ∃ p, (served smallHost (smallDisk hello) [(openRoot, 7)]).lmPaths 7 = some p ∧
      ListsRight smallHost (served smallHost (smallDisk hello) [(openRoot, 7), (openRoot, 8)])
        [[108, 102]] [[97]] p.dirData := by
  obtain ⟨p, found, -, -, kept⟩ := listsRight_iff smallHost (smallDisk hello) [] openRoot 7 _ _ _ _
    opensDir_openRoot
  refine ⟨p, found, kept [(openRoot, 8)] (by decide +kernel) (notTaken_of_le ?_)⟩
  decide +kernel

/-- The directory of the flag with one file, whose name is one letter with an accent. -/
def accentDisk : Disk :=
  { smallDisk hello with
    entries := [⟨[], [108, 102], name_flag, .dir⟩, ⟨[[108, 102]], [195, 169], by decide, .file⟩] }

theorem opensDir_accent :
    OpensDir smallHost (served smallHost accentDisk []) openRoot [47] [108, 102, 47]
      [[108, 102]] [[195, 169]] := by
  refine ⟨by decide, by decide +kernel, by decide +kernel, by decide +kernel, ?_⟩
  simp [Disk.readDir, served, Globals.start, accentDisk, smallDisk, Disk.nodeAt, Entry.place,
    Disk.children]

/-- The name is read back as its first byte, without the high bit. -/
theorem not_listsRight_accent :
    ∃ p, (served smallHost accentDisk [(openRoot, 7)]).lmPaths 7 = some p ∧
      ¬ListsRight smallHost (served smallHost accentDisk [(openRoot, 7)]) [[108, 102]]
        [[195, 169]] p.dirData := by
  have range := inodeRange_served smallHost accentDisk []
  obtain ⟨p, found, -, data⟩ := opensDir_accent.found_path 7 range
  have mine := opensDir_accent.hands 7 range
  refine ⟨p, found, fun right => ?_⟩
  rw [data] at right
  exact absurd ((opensDir_accent.lists_iff range mine).mp right) (by decide +kernel)

end Frobio.LemMan
