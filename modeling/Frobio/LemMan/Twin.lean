/-
This file is about two waiters that are alike as far as one request can tell: they
have the same path under its descriptor, the disk is the same near some places, and
where it matters the number of the last error and the inodes are the same. Then the
request has the same reply and the same effects on both, and leaves them alike.

What matters depends on the request, and on the branch it takes: `Needs` is about
its effects. The three propositions that stand for what is alike are parameters, so
that one theorem serves every case.
-/

import Frobio.LemMan.Change

namespace Frobio.LemMan

open Coms SlashPath Disk Positional

/-! ### What a request needs -/

/-- The request has given a path. -/
def gives (effects : List Effect) : Bool :=
  match effects.getLast? with
  | some (.create _) | some (.readDir _) | some (.openFile _) => true
  | _ => false

/-- The request has given a directory, and its entries have been given inodes. -/
def lists (effects : List Effect) : Bool :=
  match effects.getLast? with
  | some (.readDir _) => true
  | _ => false

/-- The request has called `LemmaError`. -/
def complains (effects : List Effect) : Bool :=
  match effects.getLast? with
  | some (.lemmaError _) => true
  | _ => false

/-- The request asks what is known of an inode. -/
def AsksInode (request : Request) : Prop :=
  (opOf request.input).toNat = 11 ∧ (regsOf request.input).rb = 0x20

instance (request : Request) : Decidable (AsksInode request) :=
  inferInstanceAs (Decidable (_ ∧ _))

/-- The path leads to one of these places or below, and goes through nothing but what is above or
below one. -/
def AtHome (host : Host) (homes : List Place) (path : Text) : Prop :=
  (∃ home ∈ homes, home <+: resolve host.current path) ∧
    ∀ place ∈ visited host.current path, near homes place = true

instance (host : Host) (homes : List Place) (path : Text) : Decidable (AtHome host homes path) :=
  inferInstanceAs (Decidable (_ ∧ _))

/-- What has to be alike: the path, the number of the last error, and the inodes. -/
structure Needs (host : Host) (homes : List Place) (request : Request) (samePath sameError sameInode : Prop)
    (effects : List Effect) : Prop where
  path : AboutPath request ∨ gives effects = true → samePath
  error : complains effects = true → sameError
  inode : AsksInode request ∨ lists effects = true → sameInode
  home : ∀ effect ∈ effects, ∀ path ∈ effect.path, AtHome host homes path

instance (host : Host) (homes : List Place) (request : Request) (samePath sameError sameInode : Prop)
    [Decidable samePath] [Decidable sameError] [Decidable sameInode] (effects : List Effect) :
    Decidable (Needs host homes request samePath sameError sameInode effects) :=
  decidable_of_iff ((AboutPath request ∨ gives effects = true → samePath) ∧
      (complains effects = true → sameError) ∧
      (AsksInode request ∨ lists effects = true → sameInode) ∧
      ∀ effect ∈ effects, ∀ path ∈ effect.path, AtHome host homes path)
    ⟨fun ⟨path, error, inode, home⟩ => ⟨path, error, inode, home⟩,
      fun needs => ⟨needs.path, needs.error, needs.inode, needs.home⟩⟩

structure Alike (homes : List Place) (pd : Nat) (samePath sameError sameInode : Prop) (g g' : Globals) :
    Prop where
  path : samePath → g'.lmPaths pd = g.lmPaths pd
  error : sameError → g'.prevLemmaError = g.prevLemmaError
  inode : sameInode → g'.inodes = g.inodes ∧ g'.nextInodeVar = g.nextInodeVar
  disk : Agree homes g.disk g'.disk
  handles : samePath → ∀ p ∈ g.lmPaths pd, ∀ handle ∈ p.osFile, near homes handle.1.place = true

structure Twin (homes : List Place) (pd : Nat) (samePath sameError sameInode : Prop) (o o' : Outcome) :
    Prop where
  reply : o'.reply = o.reply
  effects : o'.effects = o.effects
  alike : Alike homes pd samePath sameError sameInode o.globals o'.globals

section

variable {host : Host} {homes : List Place} {request : Request} {pd : Nat}
  {samePath sameError sameInode : Prop} {g g' : Globals} {regs : LMRegs}

theorem Alike.answer (alike : Alike homes pd samePath sameError sameInode g g') (status : UInt8)
    (regs : LMRegs) (payload : Text) (effects : List Effect) :
    Twin homes pd samePath sameError sameInode (answer g status regs payload effects)
      (answer g' status regs payload effects) :=
  ⟨rfl, rfl, alike⟩

theorem Alike.panicked (alike : Alike homes pd samePath sameError sameInode g g') (effects : List Effect) :
    Twin homes pd samePath sameError sameInode (panicked g effects) (panicked g' effects) :=
  ⟨rfl, rfl, alike⟩

theorem complains_refuse (g : Globals) (regs : LMRegs) (effects : List Effect) :
    complains (refuse g regs effects).effects = true := by
  show complains (effects ++ [_]) = true
  rw [complains, List.getLast?_concat]

theorem Alike.refuse (alike : Alike homes pd samePath sameError sameInode g g') (regs : LMRegs)
    (effects : List Effect) (numbers : sameError) :
    Twin homes pd samePath sameError sameInode (refuse g regs effects) (refuse g' regs effects) := by
  have same := alike.error numbers
  refine ⟨?_, ?_, alike.path, ?_, alike.inode, alike.disk, alike.handles⟩
  · simp only [LemMan.refuse, LemMan.answer, same]
  · simp only [LemMan.refuse, LemMan.answer, same]
  · intro _
    simp only [LemMan.refuse, LemMan.answer, same]

/-- Set the path under the descriptor on both. -/
theorem Alike.setPath (alike : Alike homes pd samePath sameError sameInode g g') (p : Option LMPath)
    (handles : ∀ p' ∈ p, ∀ handle ∈ p'.osFile, near homes handle.1.place = true) :
    Alike homes pd samePath sameError sameInode (g.setPath pd p) (g'.setPath pd p) where
  path := fun _ => by rw [setPath_self, setPath_self]
  error := alike.error
  inode := alike.inode
  disk := alike.disk
  handles := by
    rw [setPath_self]
    exact fun _ => handles

theorem Alike.setSome (alike : Alike homes pd samePath sameError sameInode g g') (p : LMPath)
    (handles : ∀ handle ∈ p.osFile, near homes handle.1.place = true) :
    Alike homes pd samePath sameError sameInode (g.setPath pd (some p)) (g'.setPath pd (some p)) := by
  refine alike.setPath (some p) fun p' same => ?_
  obtain rfl := Option.some_inj.mp same
  exact handles

theorem Alike.withDisk (alike : Alike homes pd samePath sameError sameInode g g') {disk disk' : Disk}
    (agree : Agree homes disk disk') :
    Alike homes pd samePath sameError sameInode { g with disk } { g' with disk := disk' } :=
  ⟨alike.path, alike.error, alike.inode, agree, alike.handles⟩

/-! ### The handlers -/

theorem AtHome.near {path : Text} {place : Place} (here : AtHome host homes path)
    (found : resolve host.current path = place) : near homes place = true := by
  obtain ⟨home, member, below⟩ := here.1
  exact near_of_below member (found ▸ below)

theorem twin_fdInf (alike : Alike homes pd samePath sameError sameInode g g') (inodes : sameInode)
    (info : FileInfo)
    (home : ∀ effect ∈ (fdInf host g info regs).effects, ∀ path ∈ effect.path,
      AtHome host homes path) :
    Twin homes pd samePath sameError sameInode (fdInf host g info regs) (fdInf host g' info regs) := by
  unfold fdInf at home ⊢
  dsimp only at home ⊢
  rw [(alike.inode inodes).1]
  split at home
  · exact alike.panicked []
  · rename_i pathName listed
    have here : AtHome host homes (join [host.lemmanFs, pathName]) := by
      repeat' split at home
      all_goals exact home (.stat _) List.mem_cons_self _ rfl
    rw [← alike.disk.find here.2]
    split
    · exact alike.panicked _
    · rename_i place found
      have near := here.near (resolve_of_find found)
      rw [← alike.disk.nodeAt near, ← alike.disk.fileAt near,
        ← alike.disk.content (g.disk.fileAt place) near]
      split
      · exact alike.panicked _
      · split
        · exact alike.panicked _
        · exact alike.answer ..

theorem twin_lmGetStt (alike : Alike homes pd samePath sameError sameInode g g') (same : samePath)
    (inodes : regs.rb = 0x20 → sameInode) (info : FileInfo)
    (home : ∀ effect ∈ (lmGetStt host g pd info regs).effects, ∀ path ∈ effect.path,
      AtHome host homes path) :
    Twin homes pd samePath sameError sameInode (lmGetStt host g pd info regs)
      (lmGetStt host g' pd info regs) := by
  unfold lmGetStt at home ⊢
  rw [alike.path same]
  split at home
  · exact alike.answer ..
  · by_cases asks : regs.rb = 0x20
    · rw [if_pos asks] at home ⊢
      rw [if_pos asks]
      exact twin_fdInf alike (inodes asks) info home
    · rw [if_neg asks, if_neg asks]
      exact alike.answer ..

theorem twin_osRemove {name : Text} (alike : Alike homes pd samePath sameError sameInode g g')
    (here : AtHome host homes name) :
    (osRemove host g.disk name = none ∧ osRemove host g'.disk name = none) ∨
      ∃ disk disk', osRemove host g.disk name = some disk ∧
        osRemove host g'.disk name = some disk' ∧ Agree homes disk disk' := by
  unfold osRemove
  split
  · exact .inl ⟨rfl, rfl⟩
  · rw [← alike.disk.find here.2]
    cases found : g.disk.find host.current name with
    | none => exact .inl ⟨rfl, rfl⟩
    | some place =>
      obtain ⟨home, member, below⟩ := here.1
      exact alike.disk.remove member (resolve_of_find found ▸ below)

theorem twin_lmDelete {name : Text} (alike : Alike homes pd samePath sameError sameInode g g')
    (numbers : complains (lmDelete host g regs name).effects = true → sameError)
    (here : AtHome host homes name) :
    Twin homes pd samePath sameError sameInode (lmDelete host g regs name) (lmDelete host g' regs name) := by
  unfold lmDelete at numbers ⊢
  rcases twin_osRemove alike here with ⟨none, none'⟩ | ⟨disk, disk', removed, removed', agree⟩
  · rw [none] at numbers ⊢
    rw [none']
    exact alike.refuse regs _ (numbers (complains_refuse ..))
  · rw [removed, removed']
    exact (alike.withDisk agree).answer ..

theorem twin_lmSeek (alike : Alike homes pd samePath sameError sameInode g g') (same : samePath) :
    Twin homes pd samePath sameError sameInode (lmSeek g pd regs) (lmSeek g' pd regs) := by
  unfold lmSeek
  rw [alike.path same]
  split
  · exact alike.answer ..
  · rename_i p found
    refine (alike.setSome _ ?_).answer ..
    exact alike.handles same p found

theorem twin_lmWrite (alike : Alike homes pd samePath sameError sameInode g g') (same : samePath)
    (payIn : Text) (numbers : complains (lmWrite g pd regs payIn).effects = true → sameError) :
    Twin homes pd samePath sameError sameInode (lmWrite g pd regs payIn) (lmWrite g' pd regs payIn) := by
  unfold lmWrite at numbers ⊢
  rw [alike.path same]
  split
  · exact alike.answer ..
  rename_i p found
  rw [found] at numbers
  dsimp only at numbers
  split
  · rename_i mode
    rw [if_pos mode] at numbers
    exact alike.refuse regs _ (numbers (complains_refuse ..))
  rename_i mode
  rw [if_neg mode] at numbers
  split
  · rename_i dir
    rw [if_pos dir] at numbers
    exact alike.refuse regs _ (numbers (complains_refuse ..))
  rename_i dir
  rw [if_neg dir] at numbers
  split
  · rename_i isDir
    rw [if_pos isDir] at numbers
    exact alike.refuse regs _ (numbers (complains_refuse ..))
  rename_i isDir
  rw [if_neg isDir] at numbers
  split
  · exact alike.panicked []
  · rename_i handle
    rw [handle] at numbers
    exact alike.refuse regs _ (numbers (complains_refuse ..))
  · rename_i file handle
    have near := alike.handles same p found (file, true) handle
    refine ((alike.withDisk (alike.disk.write near p.offset payIn)).setSome _ ?_).answer ..
    exact alike.handles same p found

theorem Alike.readPath (alike : Alike homes pd samePath sameError sameInode g g') (same : samePath) {p : LMPath}
    (found : g.lmPaths pd = some p) (n : Nat) : readPath g' p n = readPath g p n := by
  unfold LemMan.readPath
  split
  · rfl
  · split
    · rfl
    · rename_i file writable handle
      rw [alike.disk.content file (alike.handles same p found (file, writable) handle)]

theorem twin_lmRead (alike : Alike homes pd samePath sameError sameInode g g') (same : samePath) (linely : Bool)
    (numbers : complains (lmRead g pd regs linely).effects = true → sameError) :
    Twin homes pd samePath sameError sameInode (lmRead g pd regs linely) (lmRead g' pd regs linely) := by
  unfold lmRead at numbers ⊢
  rw [alike.path same]
  split
  · exact alike.answer ..
  rename_i p found
  rw [found] at numbers
  dsimp only at numbers
  split
  · exact alike.answer ..
  rename_i within
  rw [if_neg within] at numbers
  rw [alike.readPath same found]
  split
  · rename_i none
    rw [none] at numbers
    exact alike.refuse regs _ (numbers (complains_refuse ..))
  · refine (alike.setSome _ ?_).answer ..
    exact alike.handles same p found

theorem twin_lmClose (alike : Alike homes pd samePath sameError sameInode g g') (same : samePath) :
    Twin homes pd samePath sameError sameInode (lmClose g pd regs) (lmClose g' pd regs) := by
  unfold lmClose
  rw [alike.path same]
  split
  · exact alike.answer ..
  · exact (alike.setPath none nofun).answer ..

theorem twin_createPath {mode : UInt8} {name joined : Text}
    (alike : Alike homes pd samePath sameError sameInode g g')
    (numbers : complains (createPath host g pd regs mode name joined).effects = true → sameError)
    (home : mode = 2 → AtHome host homes joined) :
    Twin homes pd samePath sameError sameInode (createPath host g pd regs mode name joined)
      (createPath host g' pd regs mode name joined) := by
  unfold createPath at numbers ⊢
  by_cases other : mode ≠ 2
  · rw [if_pos other] at numbers ⊢
    rw [if_pos other]
    exact alike.refuse regs _ (numbers (complains_refuse ..))
  rw [if_neg other] at numbers ⊢
  rw [if_neg other]
  have here := home (not_not.mp other)
  rw [← alike.disk.find here.2]
  cases found : g.disk.find host.current joined with
  | none =>
    rw [found] at numbers
    exact alike.refuse regs _ (numbers (complains_refuse ..))
  | some place =>
    have near := here.near (resolve_of_find found)
    rw [found] at numbers
    simp only [Option.bind_some] at numbers ⊢
    rcases alike.disk.create near with ⟨none, none'⟩ | ⟨file, next, next', created, created', agree⟩
    · rw [none] at numbers ⊢
      rw [none']
      exact alike.refuse regs _ (numbers (complains_refuse ..))
    · rw [created, created']
      refine ((alike.withDisk agree).setSome _ fun handle same => ?_).answer ..
      obtain rfl := Option.some_inj.mp same
      exact (place_of_create created).symm ▸ near

theorem twin_openPath {mode : UInt8} {name joined : Text}
    (alike : Alike homes pd samePath sameError sameInode g g')
    (numbers : complains (openPath host g pd regs mode name joined).effects = true → sameError)
    (inodes : lists (openPath host g pd regs mode name joined).effects = true → sameInode)
    (here : AtHome host homes joined) :
    Twin homes pd samePath sameError sameInode (openPath host g pd regs mode name joined)
      (openPath host g' pd regs mode name joined) := by
  unfold openPath at numbers inodes ⊢
  rw [← alike.disk.find here.2]
  cases found : g.disk.find host.current joined with
  | none =>
    rw [found] at numbers
    exact alike.refuse regs _ (numbers (complains_refuse ..))
  | some place =>
    have near := here.near (resolve_of_find found)
    obtain ⟨home, member, below⟩ := here.1
    rw [resolve_of_find found] at below
    rw [found] at numbers inodes
    dsimp only at numbers inodes ⊢
    rw [← alike.disk.nodeAt near, ← alike.disk.readDir member below,
      ← alike.disk.openFile near]
    cases node : g.disk.nodeAt place with
    | none =>
      rw [node] at numbers
      exact alike.refuse regs _ (numbers (complains_refuse ..))
    | some node' =>
      rw [node] at numbers inodes
      cases node' with
      | dir =>
        dsimp only at numbers inodes ⊢
        cases read : g.disk.readDir place with
        | none =>
          rw [read] at numbers
          exact alike.refuse regs _ (numbers (complains_refuse ..))
        | some entries =>
          rw [read] at inodes
          obtain ⟨inodes', next'⟩ := alike.inode (inodes rfl)
          have same : listDir g' (cleanName name) entries = listDir g (cleanName name) entries := by
            rw [listDir, listDir, inodes', next']
          dsimp only
          rw [same]
          have listed : Alike homes pd samePath sameError sameInode
              { g with
                inodes := (listDir g (cleanName name) entries).inodes
                nextInodeVar := (listDir g (cleanName name) entries).nextInodeVar }
              { g' with
                inodes := (listDir g (cleanName name) entries).inodes
                nextInodeVar := (listDir g (cleanName name) entries).nextInodeVar } :=
            ⟨alike.path, alike.error, fun _ => ⟨rfl, rfl⟩, alike.disk, alike.handles⟩
          exact (listed.setSome _ fun _ none => by cases none).answer ..
      | file =>
        dsimp only at numbers ⊢
        cases isOpen : g.disk.openFile place with
        | none =>
          rw [isOpen] at numbers
          exact alike.refuse regs _ (numbers (complains_refuse ..))
        | some file =>
          have near' : Disk.near homes file.place = true := by
            rw [← (openFile_eq_some.mp isOpen).2]
            exact near
          dsimp only
          rw [← alike.disk.content file near']
          refine (alike.setSome _ fun handle same => ?_).answer ..
          obtain rfl := Option.some_inj.mp same
          exact near'

theorem twin_lmOpen {mode : UInt8} {name : Text} {create : Bool}
    (alike : Alike homes pd samePath sameError sameInode g g')
    (numbers : complains (lmOpen host g pd regs mode name create).effects = true → sameError)
    (inodes : lists (lmOpen host g pd regs mode name create).effects = true → sameInode)
    (home : ∀ effect ∈ (lmOpen host g pd regs mode name create).effects, ∀ path ∈ effect.path,
      AtHome host homes path) :
    Twin homes pd samePath sameError sameInode (lmOpen host g pd regs mode name create)
      (lmOpen host g' pd regs mode name create) := by
  unfold lmOpen at numbers inodes home ⊢
  cases joined : jname host name with
  | none =>
    rw [joined] at numbers
    exact alike.refuse regs _ (numbers (complains_refuse ..))
  | some path =>
    rw [joined] at numbers inodes home
    dsimp only at numbers inodes home ⊢
    cases create with
    | true =>
      refine twin_createPath alike numbers fun two => ?_
      refine home (.create path) ?_ path rfl
      simp only [if_true, createPath, two, ne_eq, not_true_eq_false, if_false]
      split
      · exact List.mem_append_left _ List.mem_cons_self
      · exact List.mem_cons_self
    | false =>
      refine twin_openPath alike numbers inodes (home (.stat path) ?_ path rfl)
      simp only [Bool.false_eq_true, if_false, openPath]
      repeat' split
      all_goals exact List.mem_cons_self

/-! ### Requests -/

theorem twin_withName {handle handle' : Text → Outcome}
    (alike : Alike homes pd samePath sameError sameInode g g')
    (needs : Needs host homes request samePath sameError sameInode (withName g request.input handle).effects)
    (each : ∀ name, nameOf request.input = some name →
      Needs host homes request samePath sameError sameInode (handle name).effects →
        Twin homes pd samePath sameError sameInode (handle name) (handle' name)) :
    Twin homes pd samePath sameError sameInode (withName g request.input handle)
      (withName g' request.input handle') := by
  unfold withName at needs ⊢
  cases named : nameOf request.input with
  | none => exact alike.panicked []
  | some name =>
    rw [named] at needs
    exact each name named needs

/-- A request cannot tell waiters apart that are alike in what it needs. -/
theorem twin_doLemMan (alike : Alike homes pd samePath sameError sameInode g g')
    (needs : Needs host homes request samePath sameError sameInode (doLemMan host g request pd).effects) :
    Twin homes pd samePath sameError sameInode (doLemMan host g request pd)
      (doLemMan host g' request pd) := by
  have same : ∀ {op : Nat}, (opOf request.input).toNat = op →
      op ∈ [6, 7, 8, 9, 10, 11, 13] → samePath :=
    fun is member => needs.path (.inl (by rw [AboutPath, is]; exact member))
  have asks : (opOf request.input).toNat = 11 → (regsOf request.input).rb = 0x20 → sameInode :=
    fun op byte => needs.inode (.inl ⟨op, byte⟩)
  revert needs
  unfold doLemMan
  dsimp only
  by_cases short : request.input.length < headerLen
  · rw [if_pos short, if_pos short]
    exact fun _ => alike.panicked []
  rw [if_neg short, if_neg short]
  split <;> intro needs
  · exact twin_withName alike needs fun name _ needs =>
      twin_lmOpen alike needs.error (fun listed => needs.inode (.inr listed)) needs.home
  · exact twin_withName alike needs fun name _ needs =>
      twin_lmOpen alike needs.error (fun listed => needs.inode (.inr listed)) needs.home
  · exact twin_withName alike needs fun _ _ needs =>
      alike.refuse _ _ (needs.error (complains_refuse ..))
  · exact twin_withName alike needs fun _ _ _ => alike.answer ..
  · refine twin_withName alike needs fun name _ needs =>
      twin_lmDelete alike needs.error (needs.home (.remove name) ?_ name rfl)
    unfold lmDelete
    split
    · exact List.mem_append_left _ List.mem_cons_self
    · exact List.mem_cons_self
  · rename_i op
    exact twin_lmSeek alike (same op (by decide))
  · rename_i op
    exact twin_lmRead alike (same op (by decide)) false needs.error
  · rename_i op
    exact twin_lmWrite alike (same op (by decide)) _ needs.error
  · rename_i op
    exact twin_lmRead alike (same op (by decide)) true needs.error
  · rename_i op
    exact twin_lmWrite alike (same op (by decide)) _ needs.error
  · rename_i op
    exact twin_lmGetStt alike (same op (by decide)) (asks op) _ needs.home
  · rename_i op
    exact twin_lmClose alike (same op (by decide))
  · by_cases beyond : 14 ≤ (opOf request.input).toNat
    · rw [if_pos beyond, if_pos beyond]
      exact alike.panicked []
    · rw [if_neg beyond] at needs ⊢
      rw [if_neg beyond]
      exact alike.refuse _ _ (needs.error (complains_refuse ..))

end

end Frobio.LemMan
