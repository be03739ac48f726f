/-
This file is about what becomes of dirty records. A record that is dirtied is saved in a
file of its own when its drive is unmounted or cleaned up, if the save succeeds and its
path is not the path of another save. Otherwise an image is lost: the record is deleted
after a save that failed too, and the timestamps in the paths are in seconds.
-/

import Frobio.HdbDos.Drives

namespace Frobio.HdbDos

open Coms Positional SlashPath Transcript

/-! ### Lost writes -/

/-- A drive still has its dirty record. A sector may change it; anything else leaves it alone. -/
def Kept (x' : Session) (nth : Fin NumDrives) (d : DriveImage) : Action → Prop
  | .sector _ _ => ∃ d', x'.drives nth = some d' ∧ d'.dirty = true
  | _ => x'.drives nth = some d

/-- Every dirty record is kept, or its complete image is saved. -/
def KeptOrSaved (o : Outside) (x : Session) (action : Action) : Prop :=
  ∀ nth d, x.drives nth = some d → d.dirty = true →
    Kept (step o x action).1 nth d action ∨
      ∃ save ∈ (step o x action).1.saves.drop x.saves.length,
        save.dest = savePath o x d ∧ save.ok = true ∧ d.image = some save.data

/-- The files that were saved are there, each with the data of its only save. -/
structure NoneOverwritten (x : Session) : Prop where
  apart : (x.saves.map Save.dest).Nodup
  there : ∀ save ∈ x.saves, save.ok = true → x.host save.dest = some save.data

def NoLostWrites (o : Outside) (x : Session) (actions : List Action) : Prop :=
  Always (step o) (KeptOrSaved o) x actions ∧ NoneOverwritten (after (step o) x actions)

/-! ### The condition -/

/-- The drives an action cleans up. -/
def cleaned (x : Session) : Action → List (Fin NumDrives)
  | .sector _ _ => []
  | .mount nth c =>
    match isModelMounted x c with
    | none => []
    | some (some mounted) => if nth = mounted then [] else [mounted, nth]
    | some none => [nth]
  | .unmountAll => List.finRange NumDrives
  | .cleanup => List.finRange NumDrives

/-- The record of a drive, if it is dirty. -/
def dirtyOn (x : Session) (nth : Fin NumDrives) : Option DriveImage :=
  (x.drives nth).filter DriveImage.dirty

/-- The dirty records of the drives an action cleans up. -/
def toSave (x : Session) (action : Action) : List DriveImage :=
  (cleaned x action).filterMap (dirtyOn x)

/-- The records can be saved, each at a path of its own. -/
def CanSave (o : Outside) (x : Session) (action : Action) : Prop :=
  (∀ k < (toSave x action).length, o.saveFails (x.saves.length + k) = none) ∧
    (x.saves.map Save.dest ++ (toSave x action).map (savePath o x)).Nodup

/-! ### Saves in a row -/

section

variable {o : Outside} {x y : Session}

/-- Two sessions with the same files. -/
structure SameFiles (x y : Session) : Prop where
  retain : x.retain = y.retain
  host : x.host = y.host
  saves : x.saves = y.saves

def saveRecord (o : Outside) (x : Session) (d : DriveImage) : Session :=
  writeFile o x (savePath o x d) (d.image.getD [])

def saveAll (o : Outside) (x : Session) (ds : List DriveImage) : Session :=
  ds.foldl (saveRecord o) x

theorem SameFiles.refl (x : Session) : SameFiles x x := ⟨rfl, rfl, rfl⟩

theorem SameFiles.trans {z : Session} (first : SameFiles x y) (second : SameFiles y z) :
    SameFiles x z :=
  ⟨first.retain.trans second.retain, first.host.trans second.host, first.saves.trans second.saves⟩

theorem SameFiles.put (same : SameFiles x y) (nth : Fin NumDrives) (d : Option DriveImage) :
    SameFiles (x.put nth d) y := ⟨same.retain, same.host, same.saves⟩

theorem SameFiles.savePath (same : SameFiles x y) (d : DriveImage) :
    savePath o x d = savePath o y d := by
  rw [HdbDos.savePath, HdbDos.savePath, same.retain]

theorem SameFiles.saveRecord (same : SameFiles x y) (d : DriveImage) :
    SameFiles (saveRecord o x d) (saveRecord o y d) := by
  rw [HdbDos.saveRecord, HdbDos.saveRecord, same.savePath, writeFile, writeFile, same.saves]
  split
  · exact ⟨same.retain, congrArg (Function.update · _ _) same.host, rfl⟩
  · exact ⟨same.retain, congrArg (Function.update · _ _) same.host, rfl⟩

theorem SameFiles.saveAll (same : SameFiles x y) (ds : List DriveImage) :
    SameFiles (saveAll o x ds) (saveAll o y ds) := by
  induction ds generalizing x y with
  | nil => exact same
  | cons d ds inductionHypothesis => exact inductionHypothesis (same.saveRecord d)

theorem retain_saveRecord (d : DriveImage) : (saveRecord o x d).retain = x.retain := by
  rw [saveRecord, writeFile]
  split
  · rfl
  · rfl

theorem saves_saveRecord (d : DriveImage) :
    (saveRecord o x d).saves = x.saves ++
      [⟨savePath o x d, d.image.getD [], (o.saveFails x.saves.length).isNone⟩] := by
  rw [saveRecord, writeFile]
  split
  · rename_i success
    rw [success]
    rfl
  · rename_i left failure
    rw [failure]
    rfl

theorem savePath_saveRecord (d d' : DriveImage) :
    savePath o (saveRecord o x d) d' = savePath o x d' := by
  rw [savePath, savePath, retain_saveRecord]

/-- What the saves put on record. -/
theorem saves_saveAll (ds : List DriveImage) :
    (saveAll o x ds).saves = x.saves ++ ds.mapIdx fun k d =>
      ⟨savePath o x d, d.image.getD [], (o.saveFails (x.saves.length + k)).isNone⟩ := by
  induction ds generalizing x with
  | nil => exact (List.append_nil _).symm
  | cons d ds inductionHypothesis =>
    show (saveAll o (saveRecord o x d) ds).saves = _
    rw [inductionHypothesis, saves_saveRecord, List.mapIdx_cons, List.append_assoc]
    refine congrArg (x.saves ++ ·) (congrArg (List.cons _) ?_)
    refine List.mapIdx_eq_mapIdx_iff.mpr fun k inside => ?_
    rw [savePath_saveRecord, List.length_append, List.length_singleton, Nat.add_assoc,
      Nat.add_comm 1 k]

/-- Saves that succeed at new paths overwrite nothing. -/
theorem NoneOverwritten.saveAll {ds : List DriveImage} (good : NoneOverwritten x)
    (succeed : ∀ k < ds.length, o.saveFails (x.saves.length + k) = none)
    (apart : (x.saves.map Save.dest ++ ds.map (savePath o x)).Nodup) :
    NoneOverwritten (saveAll o x ds) := by
  induction ds generalizing x with
  | nil => exact good
  | cons d ds inductionHypothesis =>
    have success := succeed 0 (Nat.zero_lt_succ _)
    rw [Nat.add_zero] at success
    have record : (saveRecord o x d).saves.map Save.dest =
        x.saves.map Save.dest ++ [savePath o x d] := by
      rw [saves_saveRecord, List.map_append]
      rfl
    have paths : ds.map (savePath o (saveRecord o x d)) = ds.map (savePath o x) :=
      List.map_congr_left fun d' _ => savePath_saveRecord d d'
    rw [List.map_cons, List.append_cons] at apart
    refine inductionHypothesis (x := saveRecord o x d) ⟨?_, ?_⟩ (fun k inside => ?_) ?_
    · rw [record]
      exact (List.nodup_append.mp apart).1
    · intro save member ok
      have new : savePath o x d ∉ x.saves.map Save.dest := fun old =>
        (List.nodup_append.mp (List.nodup_append.mp apart).1).2.2 _ old _
          (List.mem_singleton_self _) rfl
      rw [saves_saveRecord] at member
      rw [saveRecord, writeFile, success]
      rcases List.mem_append.mp member with old | last
      · have other : save.dest ≠ savePath o x d := fun same => new (same ▸ List.mem_map_of_mem old)
        show Function.update x.host _ _ save.dest = some save.data
        rw [Function.update_of_ne other]
        exact good.there save old ok
      · rw [List.mem_singleton.mp last]
        exact Function.update_self _ _ _
    · rw [saves_saveRecord, List.length_append, List.length_singleton, Nat.add_assoc,
        Nat.add_comm 1 k]
      exact succeed (k + 1) (Nat.succ_lt_succ inside)
    · rw [record, paths]
      exact apart

/-! ### Clean-ups in a row -/

/-- What an action does that cleans up these drives. -/
structure Cleaned (o : Outside) (x x' : Session) (nths : List (Fin NumDrives)) : Prop where
  files : SameFiles x' (saveAll o x (nths.filterMap (dirtyOn x)))
  elsewhere : ∀ m, m ∉ nths → x'.drives m = x.drives m
  here : ∀ m ∈ nths, dirtyOn x' m = none

theorem dirtyOn_eq_some {nth : Fin NumDrives} {d : DriveImage} :
    dirtyOn x nth = some d ↔ x.drives nth = some d ∧ d.dirty = true :=
  Option.filter_eq_some_iff

theorem dirtyOn_put_of_clean (nth : Fin NumDrives) {d : Option DriveImage}
    (clean : ∀ d', d = some d' → d'.dirty = false) : dirtyOn (x.put nth d) nth = none := by
  rw [dirtyOn, drives_put_self]
  refine Option.filter_eq_none_iff.mpr fun d' same dirty => ?_
  rw [clean d' same] at dirty
  cases dirty

theorem Cleaned.put {nths : List (Fin NumDrives)} {nth : Fin NumDrives} {x' : Session}
    {d : Option DriveImage} (cleaned : Cleaned o x x' nths) (member : nth ∈ nths)
    (clean : ∀ d', d = some d' → d'.dirty = false) : Cleaned o x (x'.put nth d) nths where
  files := cleaned.files.put nth d
  elsewhere m outside := by
    have other : m ≠ nth := fun same => outside (same ▸ member)
    rw [drives_put_of_ne other]
    exact cleaned.elsewhere m outside
  here m inside := by
    by_cases same : m = nth
    · rw [same]
      exact dirtyOn_put_of_clean nth clean
    · rw [dirtyOn, drives_put_of_ne same]
      exact cleaned.here m inside

theorem Cleaned.append {x' x'' : Session} {nths nths' : List (Fin NumDrives)}
    (first : Cleaned o x x' nths) (second : Cleaned o x' x'' nths')
    (apart : ∀ m ∈ nths', m ∉ nths) : Cleaned o x x'' (nths ++ nths') where
  files := by
    have same : nths'.filterMap (dirtyOn x') = nths'.filterMap (dirtyOn x) :=
      List.filterMap_congr fun m member => by
        rw [dirtyOn, dirtyOn, first.elsewhere m (apart m member)]
    have both : SameFiles (saveAll o x' (nths'.filterMap (dirtyOn x)))
        (saveAll o x ((nths ++ nths').filterMap (dirtyOn x))) := by
      rw [List.filterMap_append, saveAll, saveAll, List.foldl_append]
      exact first.files.saveAll _
    have files := second.files
    rw [same] at files
    exact files.trans both
  elsewhere m outside := by
    rw [List.mem_append, not_or] at outside
    rw [second.elsewhere m outside.2, first.elsewhere m outside.1]
  here m inside := by
    by_cases later : m ∈ nths'
    · exact second.here m later
    · rw [dirtyOn, second.elsewhere m later]
      exact first.here m ((List.mem_append.mp inside).resolve_right later)

theorem cleaned_hdbDosCleanupOneDrive (nth : Fin NumDrives) :
    Cleaned o x (hdbDosCleanupOneDrive o x nth) [nth] where
  files := by
    rw [hdbDosCleanupOneDrive, List.filterMap_cons, List.filterMap_nil, dirtyOn]
    cases there : x.drives nth with
    | none => exact .refl x
    | some d =>
      dsimp only
      rw [Option.filter_some]
      by_cases dirty : d.dirty = true
      · rw [if_pos dirty, if_pos dirty]
        exact .put (.refl _) nth none
      · rw [if_neg dirty, if_neg dirty]
        exact .refl x
  elsewhere m outside := by
    obtain same | deleted := @drives_hdbDosCleanupOneDrive o x nth
    · rw [same]
    · rw [deleted, drives_put_of_ne fun here => outside (List.mem_singleton.mpr here)]
  here m inside := by
    rw [List.mem_singleton.mp inside, hdbDosCleanupOneDrive]
    split
    · rename_i nothing
      rw [dirtyOn, nothing]
      rfl
    · rename_i d there
      split
      · exact dirtyOn_put_of_clean nth fun _ same => by cases same
      · rename_i clean
        rw [dirtyOn, there, Option.filter_some, if_neg clean]

theorem cleaned_unmount (nth : Fin NumDrives) : Cleaned o x (unmount o x nth) [nth] :=
  (cleaned_hdbDosCleanupOneDrive nth).put (List.mem_singleton_self nth) fun _ same => nomatch same

theorem cleaned_foldl {f : Session → Fin NumDrives → Session}
    (cleans : ∀ x nth, Cleaned o x (f x nth) [nth]) {nths : List (Fin NumDrives)}
    (apart : nths.Nodup) : Cleaned o x (nths.foldl f x) nths := by
  induction nths generalizing x with
  | nil => exact ⟨.refl x, fun _ _ => rfl, fun _ member => absurd member List.not_mem_nil⟩
  | cons nth nths inductionHypothesis =>
    rw [List.nodup_cons] at apart
    refine (cleans x nth).append (inductionHypothesis apart.2) fun m member same => ?_
    exact apart.1 (List.mem_singleton.mp same ▸ member)

theorem dirty_mountedRecord (c : Model) : (mountedRecord c).dirty = false := by
  rw [mountedRecord]
  split
  · split
    · rfl
    · rfl
  · rfl

theorem cleaned_setDrive (nth : Fin NumDrives) (c : Model) :
    Cleaned o x (setDrive o x nth c).1 (cleaned x (.mount nth c)) := by
  have clean : ∀ d, some (mountedRecord c) = some d → d.dirty = false := fun d same =>
    Option.some.inj same ▸ dirty_mountedRecord c
  have unchanged : Cleaned o x x [] :=
    ⟨.refl x, fun _ _ => rfl, fun _ member => absurd member List.not_mem_nil⟩
  rw [setDrive, cleaned]
  cases isModelMounted x c with
  | none => exact unchanged
  | some found =>
    cases found with
    | none => exact (cleaned_unmount nth).put (List.mem_singleton_self nth) clean
    | some mounted =>
      dsimp only
      by_cases same : nth = mounted
      · rw [if_pos same, if_pos same]
        exact unchanged
      · rw [if_neg same, if_neg same]
        refine Cleaned.put ?_ (List.mem_cons_of_mem _ (List.mem_singleton_self nth)) clean
        refine (cleaned_unmount mounted).append (cleaned_unmount nth) fun m member member' => ?_
        exact same ((List.mem_singleton.mp member).symm.trans (List.mem_singleton.mp member'))

/-! ### Sectors -/

/-- A record that is opened or written to stays dirty, if it has an image. -/
theorem Becomes.dirty {nth : Fin NumDrives} {record d : DriveImage} {now : Text}
    (becomes : Becomes o x now nth record d) (sound : record.Sound) (dirty : record.dirty = true) :
    d.dirty = true := by
  have already {d : DriveImage} (opened : openDrive o x record now = some d) : d = record := by
    obtain ⟨image, there⟩ := sound.dirty dirty
    rw [openDrive, there] at opened
    exact (Option.some.inj opened).symm
  cases becomes with
  | same => exact dirty
  | opened opened => exact already opened ▸ dirty
  | named opened => exact already opened ▸ dirty
  | written => rfl

theorem sector_files (payload now : Text) : SameFiles (hdbDosSector o x payload now).1 x := by
  obtain same | ⟨nth, d, n, changed, -⟩ := hdbDosSector_cases o x payload now
  · rw [same]
    exact .refl x
  · rw [changed]
    exact ⟨rfl, rfl, rfl⟩

theorem sector_kept (sound : AllSound x) {payload now : Text} {m : Fin NumDrives} {d : DriveImage}
    (there : x.drives m = some d) (dirty : d.dirty = true) :
    ∃ d', (hdbDosSector o x payload now).1.drives m = some d' ∧ d'.dirty = true := by
  obtain same | ⟨nth, d', n, changed, becomes⟩ := hdbDosSector_cases o x payload now
  · rw [same]
    exact ⟨d, there, dirty⟩
  · rw [changed]
    by_cases here : m = nth
    · subst here
      have record : x.record m = d := by
        rw [Session.record, there]
        rfl
      refine ⟨d', drives_put_self m _, ?_⟩
      rw [record] at becomes
      exact becomes.dirty (sound m d there) dirty
    · exact ⟨d, (drives_put_of_ne here _).trans there, dirty⟩

/-! ### Steps -/

/-- The files of every step. -/
theorem step_files (action : Action) :
    SameFiles (step o x action).1 (saveAll o x (toSave x action)) := by
  cases action with
  | sector payload now => exact sector_files payload now
  | mount nth c => exact (cleaned_setDrive nth c).files
  | unmountAll => exact (cleaned_foldl (fun _ => cleaned_unmount) (List.nodup_finRange _)).files
  | cleanup =>
    exact (cleaned_foldl (fun _ => cleaned_hdbDosCleanupOneDrive) (List.nodup_finRange _)).files

/-- A dirty record is kept just when its drive is not cleaned up. -/
theorem step_kept (sound : AllSound x) (action : Action) {nth : Fin NumDrives} {d : DriveImage}
    (there : x.drives nth = some d) (dirty : d.dirty = true) :
    Kept (step o x action).1 nth d action ↔ nth ∉ cleaned x action := by
  have kept {x' : Session} {nths : List (Fin NumDrives)} (cleaned : Cleaned o x x' nths) :
      x'.drives nth = some d ↔ nth ∉ nths := by
    refine ⟨fun same inside => ?_, fun outside => (cleaned.elsewhere nth outside).trans there⟩
    have dropped := cleaned.here nth inside
    rw [dirtyOn_eq_some.mpr ⟨same, dirty⟩] at dropped
    cases dropped
  cases action with
  | sector payload now => exact iff_of_true (sector_kept sound there dirty) List.not_mem_nil
  | mount nth' c => exact kept (cleaned_setDrive nth' c)
  | unmountAll => exact kept (cleaned_foldl (fun _ => cleaned_unmount) (List.nodup_finRange _))
  | cleanup =>
    exact kept (cleaned_foldl (fun _ => cleaned_hdbDosCleanupOneDrive) (List.nodup_finRange _))

theorem step_saves (action : Action) :
    (step o x action).1.saves = x.saves ++ (toSave x action).mapIdx fun k d =>
      ⟨savePath o x d, d.image.getD [], (o.saveFails (x.saves.length + k)).isNone⟩ := by
  rw [(step_files action).saves, saves_saveAll]

theorem step_dests (action : Action) :
    (step o x action).1.saves.map Save.dest =
      x.saves.map Save.dest ++ (toSave x action).map (savePath o x) := by
  rw [step_saves, List.map_append]
  refine congrArg (x.saves.map Save.dest ++ ·) (List.ext_getElem ?_ fun k _ _ => ?_)
  · rw [List.length_map, List.length_mapIdx, List.length_map]
  · rw [List.getElem_map, List.getElem_mapIdx, List.getElem_map]

theorem mem_toSave {action : Action} {d : DriveImage} :
    d ∈ toSave x action ↔
      ∃ nth ∈ cleaned x action, x.drives nth = some d ∧ d.dirty = true := by
  rw [toSave, List.mem_filterMap]
  exact exists_congr fun nth => and_congr_right fun _ => dirtyOn_eq_some

/-- A step keeps or saves every dirty record, at new paths, just when it can save them. -/
theorem keptOrSaved_iff (sound : AllSound x) (action : Action) :
    (KeptOrSaved o x action ∧ ((step o x action).1.saves.map Save.dest).Nodup) ↔
      CanSave o x action := by
  rw [step_dests, CanSave]
  refine and_congr_left fun apart => ?_
  have newApart : ((toSave x action).map (savePath o x)).Nodup := (List.nodup_append.mp apart).2.1
  rw [KeptOrSaved, step_saves, List.drop_left]
  constructor
  · intro each k inside
    obtain ⟨nth, member, there, dirty⟩ := mem_toSave.mp (List.getElem_mem inside)
    rcases each nth _ there dirty with kept | ⟨save, new, dest, ok, -⟩
    · exact absurd member ((step_kept sound action there dirty).mp kept)
    · obtain ⟨k', inside', rfl⟩ := List.mem_mapIdx.mp new
      have same : k' = k := by
        have inside₁ : k' < ((toSave x action).map (savePath o x)).length := by
          rwa [List.length_map]
        have inside₂ : k < ((toSave x action).map (savePath o x)).length := by
          rwa [List.length_map]
        refine (@List.Nodup.getElem_inj_iff _ _ newApart k' inside₁ k inside₂).mp ?_
        rw [List.getElem_map, List.getElem_map]
        exact dest
      subst same
      exact Option.isNone_iff_eq_none.mp ok
  · intro succeed nth d there dirty
    by_cases member : nth ∈ cleaned x action
    · obtain ⟨k, inside, rfl⟩ := List.mem_iff_getElem.mp (mem_toSave.mpr ⟨nth, member, there, dirty⟩)
      obtain ⟨image, whole⟩ := (sound nth _ there).dirty dirty
      refine .inr ⟨_, List.mem_mapIdx.mpr ⟨k, inside, rfl⟩, rfl, ?_, ?_⟩
      · exact Option.isNone_iff_eq_none.mpr (succeed k inside)
      · rw [whole]
        rfl
    · exact .inl ((step_kept sound action there dirty).mpr member)

/-! ### Runs -/

theorem NoneOverwritten.step (good : NoneOverwritten x) {action : Action}
    (can : CanSave o x action) : NoneOverwritten (step o x action).1 := by
  have files := step_files (o := o) (x := x) action
  obtain ⟨apart, there⟩ := good.saveAll can.1 can.2
  refine ⟨?_, fun save member ok => ?_⟩
  · rw [files.saves]
    exact apart
  · rw [files.saves] at member
    rw [files.host]
    exact there save member ok

theorem saves_prefix_after (actions : List Action) :
    x.saves <+: (after (step o) x actions).saves := by
  induction actions generalizing x with
  | nil => exact List.prefix_rfl
  | cons action actions inductionHypothesis =>
    refine List.IsPrefix.trans ?_ inductionHypothesis
    rw [step_saves]
    exact List.prefix_append _ _

theorem noLostWrites_of_sound (sound : AllSound x) (good : NoneOverwritten x)
    (actions : List Action) :
    NoLostWrites o x actions ↔ Always (step o) (CanSave o) x actions := by
  induction actions generalizing x with
  | nil => exact iff_of_true ⟨trivial, good⟩ trivial
  | cons action actions inductionHypothesis =>
    rw [NoLostWrites, after_cons, Always, Always, ← keptOrSaved_iff sound]
    constructor
    · rintro ⟨⟨kept, later⟩, final⟩
      have apart : ((step o x action).1.saves.map Save.dest).Nodup :=
        final.apart.sublist ((saves_prefix_after actions).sublist.map _)
      refine ⟨⟨kept, apart⟩, ?_⟩
      have can := (keptOrSaved_iff sound action).mp ⟨kept, apart⟩
      exact (inductionHypothesis (sound.step action) (good.step can)).mp ⟨later, final⟩
    · rintro ⟨now, later⟩
      have can := (keptOrSaved_iff sound action).mp now
      obtain ⟨kept, final⟩ :=
        (inductionHypothesis (sound.step action) (good.step can)).mpr later
      exact ⟨⟨now.1, kept⟩, final⟩

end

/-- No write is lost in a run of a session just when every save succeeds that the run comes to, and
no two of them are at one path. -/
theorem noLostWrites_iff_canSave (o : Outside) (retain : Text) (host : Text → Option Text)
    (actions : List Action) :
    NoLostWrites o (newDriveSession retain host) actions ↔
      Always (step o) (CanSave o) (newDriveSession retain host) actions :=
  noLostWrites_of_sound (allSound_newDriveSession retain host)
    ⟨List.nodup_nil, fun _ member => absurd member List.not_mem_nil⟩ actions

/-! ### A failed save -/

/-- A host on which no file can be written. -/
def fullHost : Outside where
  navRoot := ascii "/nav"
  sideload := none
  inkey := none
  saveFails _ := some none

def dirtyDrive0 : Text := [3, 0, 0, 0, 0] ++ List.replicate 256 0xAA

theorem dirty_of_write {o : Outside} {retain : Text} {host : Text → Option Text}
    {payload now : Text} (long : ¬payload.length < 5) (writes : payload.head? = some 3)
    (small : lsnBig payload / 630 < NumDrives) :
    ∃ d, (hdbDosSector o (newDriveSession retain host) payload now).1.drives
        ⟨lsnBig payload / 630, small⟩ = some d ∧ d.dirty = true := by
  have inside : 256 * (lsnBig payload % 630) + 256 ≤ emptyDecbInitializedDiskImage.length := by
    rw [length_emptyDecbInitializedDiskImage]
    have := Nat.mod_lt (lsnBig payload) (by decide : 630 > 0)
    omega
  rw [hdbDosSector, if_neg long, dif_pos small]
  show ∃ d, (sectorCommand o _ ⟨lsnBig payload / 630, small⟩ _ emptyDecbInitializedDiskImage
    payload).1.drives _ = some d ∧ d.dirty = true
  rw [sectorCommand_write writes inside]
  exact ⟨_, drives_put_self _ _, rfl⟩

/-- A drive that was never mounted is written to and unmounted, and its image cannot be saved. -/
theorem not_noLostWrites_fullHost :
    ¬NoLostWrites fullHost (newDriveSession (ascii "r") fun _ => none)
      [.sector dirtyDrive0 (ascii "0102-150405"), .unmountAll] := by
  rw [noLostWrites_of_sound (allSound_newDriveSession _ _)
    ⟨List.nodup_nil, fun _ member => absurd member List.not_mem_nil⟩]
  rintro ⟨-, ⟨succeed, -⟩, -⟩
  obtain ⟨d, there, dirty⟩ := @dirty_of_write fullHost (ascii "r") (fun _ => none) dirtyDrive0
    (ascii "0102-150405") (by decide +kernel) rfl (by decide +kernel)
  have member : d ∈ toSave _ .unmountAll :=
    mem_toSave.mpr ⟨_, List.mem_finRange _, there, dirty⟩
  exact absurd (succeed 0 (List.length_pos_of_mem member)) (by decide)

end Frobio.HdbDos
