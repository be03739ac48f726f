/-
This file shows what holds of the table of drives in every state of a session: no two
drives have one path, and a dirty record has an image and a path. So the check that a
model is not mounted twice never fails.

The paths of mounted files are rooted, and the names that are made up for new disks are
not, so these never meet.
-/

import Frobio.HdbDos.Drives

namespace Frobio.HdbDos

open Coms SlashPath Transcript

/-- `BaseModel.Path`, by the names below the root. -/
def basePath (names : List Text) : Text :=
  names.foldl (fun parent name => join [parent, name]) [slash]

/-- Every model is a `*BaseModel`. -/
def IsBaseModel (c : Model) : Prop := ∃ names, c.path = basePath names

def Action.OfBaseModel : Action → Prop
  | .mount _ c => IsBaseModel c
  | _ => True

/-! ### Paths -/

theorem rooted_join {first : Text} (root : rooted first = true) (second : Text) :
    rooted (join [first, second]) = true := by
  have some : first ≠ [] := by
    rintro rfl
    cases root
  by_cases empty : second = []
  · rw [empty, join, List.filter_cons_of_pos (by simpa using some), List.filter_cons_of_neg (by simp),
      List.filter_nil]
    show rooted (clean ([slash].intercalate [first])) = true
    rw [List.intercalate_singleton, rooted_clean]
    exact root
  · rw [join_pair some empty, rooted_clean, rooted_append _ some]
    exact root

theorem rooted_basePath (names : List Text) : rooted (basePath names) = true := by
  have each (path : Text) (root : rooted path = true) :
      rooted (names.foldl (fun parent name => join [parent, name]) path) = true := by
    induction names generalizing path with
    | nil => exact root
    | cons name names inductionHypothesis =>
      exact inductionHypothesis _ (rooted_join root name)
  exact each [slash] rfl

theorem not_rooted_newDriveTempName (drive : Nat) : rooted (newDriveTempName drive) = false := rfl

theorem newDriveTempName_ne_nil (drive : Nat) : newDriveTempName drive ≠ [] := nofun

theorem newDriveTempName_inj {nth m : Fin NumDrives}
    (same : newDriveTempName nth = newDriveTempName m) : nth = m := by
  revert nth m
  decide

/-! ### The table -/

structure Table (drives : Fin NumDrives → Option DriveImage) : Prop where
  /-- A path is that of a mounted file, or the name of a new disk. -/
  named : ∀ nth d, drives nth = some d →
    d.path = [] ∨ rooted d.path = true ∨ d.path = newDriveTempName nth
  unique : ∀ nth m d d', drives nth = some d → drives m = some d' →
    rooted d.path = true → d.path = d'.path → nth = m
  dirty : ∀ nth d, drives nth = some d → d.dirty = true → d.path ≠ []

section

variable {o : Outside} {x : Session} {nth : Fin NumDrives}

theorem table_newDriveSession (retain : Text) (host : Text → Option Text) :
    Table (newDriveSession retain host).drives := ⟨nofun, nofun, nofun⟩

theorem Table.delete (table : Table x.drives) : Table (x.put nth none).drives := by
  have old {m : Fin NumDrives} {d : DriveImage} (there : (x.put nth none).drives m = some d) :
      x.drives m = some d := by
    by_cases here : m = nth
    · rw [here, drives_put_self] at there
      cases there
    · rwa [drives_put_of_ne here] at there
  exact ⟨fun m d there => table.named m d (old there),
    fun m m' d d' there there' => table.unique m m' d d' (old there) (old there'),
    fun m d there => table.dirty m d (old there)⟩

/-- A record that has a path of its own can be put in. -/
theorem Table.put {d : DriveImage} (table : Table x.drives)
    (named : d.path = [] ∨ rooted d.path = true ∨ d.path = newDriveTempName nth)
    (unique : ∀ m d', x.drives m = some d' → rooted d.path = true → d.path = d'.path → m = nth)
    (dirty : d.dirty = true → d.path ≠ []) : Table (x.put nth (some d)).drives := by
  have cases {m : Fin NumDrives} {d' : DriveImage}
      (there : (x.put nth (some d)).drives m = some d') :
      m = nth ∧ d' = d ∨ m ≠ nth ∧ x.drives m = some d' := by
    by_cases here : m = nth
    · rw [here, drives_put_self] at there
      exact .inl ⟨here, (Option.some.inj there).symm⟩
    · rw [drives_put_of_ne here] at there
      exact .inr ⟨here, there⟩
  refine ⟨fun m d' there => ?_, fun m m' d' d'' there there' root same => ?_,
    fun m d' there => ?_⟩
  · rcases cases there with ⟨rfl, rfl⟩ | ⟨-, old⟩
    · exact named
    · exact table.named m d' old
  · rcases cases there with ⟨rfl, rfl⟩ | ⟨-, old⟩
    · rcases cases there' with ⟨rfl, -⟩ | ⟨-, old'⟩
      · rfl
      · exact (unique m' d'' old' root same).symm
    · rcases cases there' with ⟨rfl, rfl⟩ | ⟨-, old'⟩
      · exact unique m d' old (same ▸ root) same.symm
      · exact table.unique m m' d' d'' old old' root same
  · rcases cases there with ⟨rfl, rfl⟩ | ⟨-, old⟩
    · exact dirty
    · exact table.dirty m d' old

theorem Table.unmount (table : Table x.drives) (nth : Fin NumDrives) :
    Table (unmount o x nth).drives := by
  rw [drives_unmount]
  exact table.delete

theorem Table.cleanup (table : Table x.drives) (nth : Fin NumDrives) :
    Table (hdbDosCleanupOneDrive o x nth).drives := by
  obtain same | deleted := @drives_hdbDosCleanupOneDrive o x nth
  · rw [same]
    exact table
  · rw [deleted]
    exact table.delete

theorem Table.foldl {f : Session → Fin NumDrives → Session}
    (kept : ∀ x nth, Table x.drives → Table (f x nth).drives) (nths : List (Fin NumDrives))
    (table : Table x.drives) : Table (nths.foldl f x).drives := by
  induction nths generalizing x with
  | nil => exact table
  | cons nth nths inductionHypothesis => exact inductionHypothesis (kept x nth table)

/-! ### Sectors -/

theorem path_of_openDrive {d d' : DriveImage} {now : Text}
    (opened : openDrive o x d now = some d') : d'.path = d.path ∧ (d'.dirty = true → d.dirty = true) := by
  rw [openDrive] at opened
  split at opened
  · rw [← Option.some.inj opened]
    exact ⟨rfl, id⟩
  · split at opened
    · rw [← Option.some.inj opened]
      exact ⟨rfl, by simp⟩
    · split at opened
      · cases opened
      · split at opened
        · rw [← Option.some.inj opened]
          exact ⟨rfl, by simp⟩
        · cases opened

/-- The path of a record stays, or becomes the name of a new disk. -/
theorem Becomes.path {record d : DriveImage} {now : Text}
    (becomes : Becomes o x now nth record d) :
    (d.path = record.path ∧ (d.dirty = true → record.dirty = true ∨ record.path ≠ [])) ∨
      d.path = newDriveTempName nth := by
  have dirtied {d : DriveImage} (opened : openDrive o x record now = some d) :
      dirtiedPath nth d = record.path ∧ record.path ≠ [] ∨
        dirtiedPath nth d = newDriveTempName nth := by
    rw [dirtiedPath]
    split
    · exact .inr rfl
    · rename_i named
      rw [(path_of_openDrive opened).1] at named ⊢
      exact .inl ⟨rfl, named⟩
  cases becomes with
  | same => exact .inl ⟨rfl, .inl⟩
  | opened opened =>
    obtain ⟨same, dirty⟩ := path_of_openDrive opened
    exact .inl ⟨same, fun now => .inl (dirty now)⟩
  | named opened => exact (dirtied opened).imp_left fun same => ⟨same.1, fun _ => .inr same.2⟩
  | written _ _ opened => exact (dirtied opened).imp_left fun same => ⟨same.1, fun _ => .inr same.2⟩

theorem Table.record (table : Table x.drives) (nth : Fin NumDrives) :
    ((x.record nth).path = [] ∨ rooted (x.record nth).path = true ∨
      (x.record nth).path = newDriveTempName nth) ∧
    (∀ m d', x.drives m = some d' → rooted (x.record nth).path = true →
      (x.record nth).path = d'.path → m = nth) ∧
    ((x.record nth).dirty = true → (x.record nth).path ≠ []) := by
  rw [Session.record]
  cases there : x.drives nth with
  | none =>
    refine ⟨.inl rfl, fun _ _ _ root _ => ?_, fun dirty => ?_⟩
    · cases root
    · cases dirty
  | some d =>
    exact ⟨table.named nth d there, fun m d' there' root same =>
      (table.unique nth m d d' there there' root same).symm, table.dirty nth d there⟩

theorem Table.sector (table : Table x.drives) (payload now : Text) :
    Table (hdbDosSector o x payload now).1.drives := by
  obtain same | ⟨nth, d, n, changed, becomes⟩ := hdbDosSector_cases o x payload now
  · rw [same]
    exact table
  · rw [changed]
    show Table (x.put nth (some d)).drives
    obtain ⟨named, unique, dirty⟩ := table.record nth
    rcases becomes.path with ⟨same, onlyDirty⟩ | new
    · rw [← same] at named unique dirty onlyDirty
      refine table.put named unique fun now => ?_
      exact (onlyDirty now).elim dirty id
    · refine table.put (.inr (.inr new)) (fun m d' _ root _ => ?_) fun _ => ?_
      · rw [new, not_rooted_newDriveTempName] at root
        cases root
      · rw [new]
        exact newDriveTempName_ne_nil nth

/-! ### Mounts -/

theorem mem_mountedOn {c : Model} {m : Fin NumDrives} {d : DriveImage}
    (there : x.drives m = some d) (same : d.path = c.path) : m ∈ mountedOn x c := by
  refine List.mem_filter.mpr ⟨List.mem_finRange m, ?_⟩
  rw [there]
  exact beq_iff_eq.mpr same

theorem path_mountedRecord (c : Model) :
    ((mountedRecord c).path = [] ∨ (mountedRecord c).path = c.path) ∧
      (mountedRecord c).dirty = false := by
  rw [mountedRecord]
  split
  · split
    · exact ⟨.inr rfl, rfl⟩
    · exact ⟨.inl rfl, rfl⟩
  · exact ⟨.inl rfl, rfl⟩

theorem Table.mount (table : Table x.drives) {c : Model} (root : rooted c.path = true)
    (free : ∀ m d, x.drives m = some d → d.path = c.path → m = nth) :
    Table (x.put nth (some (mountedRecord c))).drives := by
  obtain ⟨empty | same, clean⟩ := path_mountedRecord c
  · refine table.put (.inl empty) (fun m d' _ root' _ => ?_) fun dirty => ?_
    · rw [empty] at root'
      cases root'
    · rw [clean] at dirty
      cases dirty
  · refine table.put (.inr (.inl (same ▸ root))) (fun m d' there _ same' => ?_) fun dirty => ?_
    · exact free m d' there (same'.symm.trans same)
    · rw [clean] at dirty
      cases dirty

theorem Table.setDrive (table : Table x.drives) {c : Model} (root : rooted c.path = true)
    (nth : Fin NumDrives) : Table (setDrive o x nth c).1.drives := by
  have onlyOn {drives : List (Fin NumDrives)} (mounted : mountedOn x c = drives)
      (m : Fin NumDrives) (d : DriveImage) (there : x.drives m = some d)
      (same : d.path = c.path) : m ∈ drives := mounted ▸ mem_mountedOn there same
  rw [HdbDos.setDrive, isModelMounted]
  cases mounted : mountedOn x c with
  | nil =>
    refine (table.unmount nth).mount root fun m d there same => ?_
    by_contra other
    rw [drives_unmount, drives_put_of_ne other] at there
    exact absurd (onlyOn mounted m d there same) List.not_mem_nil
  | cons first others =>
    cases others with
    | cons => exact table
    | nil =>
      dsimp only
      split
      · exact table
      · refine ((table.unmount first).unmount nth).mount root fun m d there same => ?_
        by_contra other
        rw [drives_unmount, drives_put_of_ne other, drives_unmount] at there
        by_cases here : m = first
        · rw [here, drives_put_self] at there
          cases there
        · rw [drives_put_of_ne here] at there
          exact here (List.mem_singleton.mp (onlyOn mounted m d there same))

theorem Table.step (table : Table x.drives) {action : Action} (ofBase : action.OfBaseModel) :
    Table (step o x action).1.drives := by
  cases action with
  | sector payload now => exact table.sector payload now
  | unmountAll => exact Table.foldl (fun _ nth table => table.unmount nth) _ table
  | cleanup => exact Table.foldl (fun _ nth table => table.cleanup nth) _ table
  | mount nth c =>
    obtain ⟨names, path⟩ := ofBase
    exact table.setDrive (path ▸ rooted_basePath names) nth

theorem Table.after (table : Table x.drives) {actions : List Action}
    (ofBase : ∀ action ∈ actions, action.OfBaseModel) :
    Table (Transcript.after (HdbDos.step o) x actions).drives := by
  induction actions generalizing x with
  | nil => exact table
  | cons action actions inductionHypothesis =>
    exact inductionHypothesis (table.step (ofBase action List.mem_cons_self))
      fun other member => ofBase other (List.mem_cons_of_mem _ member)

/-! ### What follows from the table -/

/-- No two drives have one path that is not empty. -/
theorem Table.injective (table : Table x.drives) {m : Fin NumDrives} {d d' : DriveImage}
    (there : x.drives nth = some d) (there' : x.drives m = some d') (some : d.path ≠ [])
    (same : d.path = d'.path) : nth = m := by
  rcases table.named nth d there with empty | root | new
  · exact absurd empty some
  · exact table.unique nth m d d' there there' root same
  · rcases table.named m d' there' with empty | root' | new'
    · exact absurd (same.trans empty) some
    · exact (table.unique m nth d' d there' there root' same.symm).symm
    · exact newDriveTempName_inj (new.symm.trans (same.trans new'))

/-- The check that a model is not mounted twice is passed. -/
theorem Table.isModelMounted (table : Table x.drives) {c : Model} (some : c.path ≠ []) :
    isModelMounted x c ≠ none := by
  have onDrive {m : Fin NumDrives} (member : m ∈ mountedOn x c) :
      ∃ d, x.drives m = Option.some d ∧ d.path = c.path := by
    have path := (List.mem_filter.mp member).2
    split at path
    · cases path
    · exact ⟨_, ‹_›, beq_iff_eq.mp path⟩
  have apart : (mountedOn x c).Nodup := (List.nodup_finRange NumDrives).filter _
  rw [HdbDos.isModelMounted]
  cases mounted : mountedOn x c with
  | nil => exact Option.some_ne_none _
  | cons first others =>
    cases others with
    | nil => exact Option.some_ne_none _
    | cons second others =>
      rw [mounted] at onDrive apart
      obtain ⟨d, there, same⟩ := onDrive List.mem_cons_self
      obtain ⟨d', there', same'⟩ := onDrive (List.mem_cons_of_mem _ List.mem_cons_self)
      have equal := table.injective there there' (same ▸ some) (same.trans same'.symm)
      exact absurd (equal ▸ List.mem_cons_self) (List.nodup_cons.mp apart).1

end

/-- In every state of a session: no two drives have one path that is not empty, and every dirty
record has an image and a path. So no model is mounted twice. -/
theorem driveTable_sound (o : Outside) (retain : Text) (host : Text → Option Text)
    (actions : List Action) (ofBase : ∀ action ∈ actions, action.OfBaseModel) :
    (∀ nth m d d',
      (after (step o) (newDriveSession retain host) actions).drives nth = some d →
      (after (step o) (newDriveSession retain host) actions).drives m = some d' →
      d.path ≠ [] → d.path = d'.path → nth = m) ∧
    (∀ nth d, (after (step o) (newDriveSession retain host) actions).drives nth = some d →
      d.dirty = true → d.image ≠ none ∧ d.path ≠ []) ∧
    ∀ c, IsBaseModel c →
      isModelMounted (after (step o) (newDriveSession retain host) actions) c ≠ none := by
  have table : Table (after (step o) (newDriveSession retain host) actions).drives :=
    (table_newDriveSession retain host).after ofBase
  have sound : AllSound (after (step o) (newDriveSession retain host) actions) :=
    invariant_after AllSound (fun _ action sound => sound.step action)
      (allSound_newDriveSession retain host) actions
  refine ⟨fun nth m d d' there there' => table.injective there there',
    fun nth d there dirty => ⟨?_, table.dirty nth d there dirty⟩, fun c base => ?_⟩
  · obtain ⟨image, whole⟩ := (sound nth d there).dirty dirty
    rw [whole]
    exact Option.some_ne_none image
  · obtain ⟨names, path⟩ := base
    refine table.isModelMounted fun empty => ?_
    have root := rooted_basePath names
    rw [← path, empty] at root
    cases root

/-! ### Two drives -/

/-- A game is mounted on one drive and then on another, which was written to before. -/
def moveGame : List Action :=
  [.mount 2 ⟨basePath [ascii "GAME.DSK"], some (false, 161280)⟩,
    .sector ([3, 0, 0, 0, 0] ++ List.replicate 256 0xAA) (ascii "0102-150405"),
    .mount 0 ⟨basePath [ascii "GAME.DSK"], some (false, 161280)⟩]

def plainHost : Outside := ⟨ascii "/nav", none, none, fun _ => none⟩

theorem driveTable_sound_moveGame :
    (∀ nth m d d',
      (after (step plainHost) (newDriveSession (ascii "r") fun _ => none) moveGame).drives nth =
        some d →
      (after (step plainHost) (newDriveSession (ascii "r") fun _ => none) moveGame).drives m =
        some d' →
      d.path ≠ [] → d.path = d'.path → nth = m) ∧
    (∀ nth d,
      (after (step plainHost) (newDriveSession (ascii "r") fun _ => none) moveGame).drives nth =
        some d →
      d.dirty = true → d.image ≠ none ∧ d.path ≠ []) ∧
    ∀ c, IsBaseModel c → isModelMounted
      (after (step plainHost) (newDriveSession (ascii "r") fun _ => none) moveGame) c ≠ none := by
  refine driveTable_sound plainHost (ascii "r") (fun _ => none) moveGame fun action member => ?_
  simp only [moveGame, List.mem_cons, List.not_mem_nil, or_false] at member
  obtain rfl | rfl | rfl := member
  · exact ⟨_, rfl⟩
  · trivial
  · exact ⟨_, rfl⟩

end Frobio.HdbDos
