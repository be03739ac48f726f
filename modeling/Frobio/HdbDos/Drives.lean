/-
This file models the emulated drives of `lemma/hdbdos.go`: `HdbDosSector` reads and
writes sectors, `SetDrive` mounts, `UnmountAllAction` of `lemma/menu.go` unmounts, and
`HdbDosCleanupOneDrive` saves what is dirty.

The host's files are there by their paths. What a save leaves behind that fails, and
the files that are injected, are a parameter; the timestamps come with the requests.
All calls of `os.WriteFile` are on record.
-/

import Frobio.Coms.Quint
import Frobio.Lib.Positional
import Frobio.Lib.SlashPath
import Frobio.Lib.Transcript

namespace Frobio.HdbDos

open Coms Positional SlashPath Transcript

def CMD_HDBDOS_SECTOR : UInt8 := 219
def CMD_HDBDOS_EXEC : UInt8 := 220

def NumDrives : Nat := 10

instance : NeZero NumDrives := ⟨by decide⟩

def FloppySizes : List Nat := [161280, 184320, 368640]

/-! ### Data -/

structure DriveImage where
  path : Text
  image : Option Text
  dirty : Bool
  creationTimestamp : Text
  deriving DecidableEq

/-- What `&DriveImage{}` makes. -/
def DriveImage.new : DriveImage := ⟨[], none, false, []⟩

/-- What a mount looks at: a `*BaseModel` is a directory or has a size. -/
structure Model where
  path : Text
  base : Option (Bool × Nat)

/-- A call of `os.WriteFile`. -/
structure Save where
  dest : Text
  data : Text
  ok : Bool
  deriving DecidableEq

structure Outside where
  navRoot : Text
  sideload : Option Text
  inkey : Option Text
  /-- Whether this call of `os.WriteFile` fails, and what is at its path then. -/
  saveFails : Nat → Option (Option Text)

/-- An `HdbDosSession` and its `DriveSession`. -/
structure Session where
  drives : Fin NumDrives → Option DriveImage
  numReads : Nat
  retain : Text
  /-- The files that can be read, by their paths. -/
  host : Text → Option Text
  saves : List Save

/-- A session that has just begun. -/
def newDriveSession (retain : Text) (host : Text → Option Text) : Session :=
  ⟨fun _ => none, 0, retain, host, []⟩

def Session.put (x : Session) (nth : Fin NumDrives) (d : Option DriveImage) : Session :=
  { x with drives := Function.update x.drives nth d }

variable (o : Outside)

def truePath (pizgaPath : Text) : Text := join [o.navRoot, pizgaPath]

/-! ### Injections -/

/-- `copy(buf[offset:], data)`. -/
def copyInto (offset : Nat) (data buf : Text) : Text :=
  writeAt 0 offset (data.take (buf.length - offset)) buf

def inject (sideload : Text) (dest : Nat) (exec : Bool) (payload : Text) : Message :=
  let buf := List.replicate (5 + 256) 0
  let buf := copyInto 5 sideload buf
  let buf := copyInto (5 + 64) payload buf
  let buf := buf.set (5 + 0x3C) (UInt8.ofNat payload.length)
  let buf := buf.set (5 + 0x38) (hi dest)
  let buf := buf.set (5 + 0x39) (lo dest)
  let buf := if exec then (buf.set (5 + 0x3A) (hi dest)).set (5 + 0x3B) (lo dest) else buf
  Message.of CMD_HDBDOS_EXEC 0 buf

def asciiToInjectBytes (s : String) : Text := (ascii s).map (63 &&& ·)

def InkeyTrapInit : Nat := 0xFA12

def ChunkSize : Nat := 0xC0

/-- The loop of `SendInitialInjections`, from the end of the file on. -/
def injectChunks (sideload : Text) : Nat → Nat → Text → List Message
  | 0, _, _ => []
  | rounds + 1, endAddr, bb =>
    if bb = [] then []
    else if bb.length > ChunkSize then
      inject sideload (endAddr - ChunkSize) false (bb.drop (bb.length - ChunkSize)) ::
        injectChunks sideload rounds (endAddr - ChunkSize) (bb.take (bb.length - ChunkSize))
    else [inject sideload InkeyTrapInit true bb]

/-- `none` is a panic: a file cannot be read. -/
def sendInitialInjections : Option (List Message) :=
  o.sideload.bind fun sideload =>
    o.inkey.map fun bb =>
      inject sideload 0x04A0 false (asciiToInjectBytes "(CLEAR KEY TOGGLES NAVIGATOR.)") ::
        injectChunks sideload (bb.length + 1) (InkeyTrapInit + bb.length) bb

/-! ### Sectors -/

def emptyDecbInitializedDiskImage : Text :=
  (List.range 161280).map fun i =>
    if i < 0x13200 ∨ 0x13300 ≤ i ∧ i < 0x13344 ∨ 0x13400 ≤ i then 0xFF else 0

def twoDigits (n : Nat) : Text := [UInt8.ofNat (48 + n / 10), UInt8.ofNat (48 + n % 10)]

def newDriveTempName (drive : Nat) : Text := ascii "new-rs" ++ twoDigits drive ++ ascii ".dsk"

/-- The record of a drive, which is made if it is needed. -/
def Session.record (x : Session) (nth : Fin NumDrives) : DriveImage := (x.drives nth).getD .new

/-- A record with its image. `none` is a panic: the file cannot be read, or is no floppy. -/
def openDrive (x : Session) (d : DriveImage) (now : Text) : Option DriveImage :=
  match d.image with
  | some _ => some d
  | none =>
    if d.path = [] then
      some { d with
        image := some emptyDecbInitializedDiskImage, dirty := false, creationTimestamp := now }
    else
      match x.host (truePath o d.path) with
      | none => none
      | some bb =>
        if bb.length ∈ FloppySizes then
          some { d with image := some bb, dirty := false, creationTimestamp := now }
        else none

def lsnBig (payload : Text) : Nat :=
  hiLo (payload.getD 1 0) (payload.getD 2 0) * 65536 + hiLo (payload.getD 3 0) (payload.getD 4 0)

/-- The reply to a read. -/
def sectorReply (payload image : Text) (front : Nat) : Message :=
  Message.of CMD_HDBDOS_SECTOR 0 (payload.take 5 ++ readAt front 256 image)

/-- `copy(image[front:back], data)`. -/
def copySector (image : Text) (front : Nat) (data : Text) : Text :=
  writeAt 0 front (data.take 256) image

/-- The `switch` of `HdbDosSector`, on an open drive. -/
def sectorCommand (x : Session) (nth : Fin NumDrives) (d : DriveImage) (image payload : Text) :
    Session × Option (List Message) :=
  let front := 256 * (lsnBig payload % 630)
  let back := front + 256
  match payload.head? with
  | some 2 =>
    let x := { x with numReads := x.numReads + 1 }
    match if x.numReads = 1 then sendInitialInjections o else some [] with
    | none => (x, none)
    | some injections =>
      if back ≤ image.length then (x, some (injections ++ [sectorReply payload image front]))
      else (x, none)
  | some 3 =>
    -- assign a name when dirtied
    let path := if d.path = [] then newDriveTempName nth else d.path
    if back ≤ image.length then
      (x.put nth (some { d with
        path, image := some (copySector image front (payload.drop 5)), dirty := true }), some [])
    else (x.put nth (some { d with path }), none)
  | _ => (x, none)

/-- `HdbDosSector`: the messages written to the connection, or `none` for a panic. -/
def hdbDosSector (x : Session) (payload now : Text) : Session × Option (List Message) :=
  if payload.length < 5 then (x, none)
  else if small : lsnBig payload / 630 < NumDrives then
    let nth : Fin NumDrives := ⟨lsnBig payload / 630, small⟩
    let d := x.record nth
    let x := x.put nth (some d)
    match openDrive o x d now with
    | none => (x, none)
    | some d =>
      match d.image with
      | none => (x, none)
      | some image => sectorCommand o (x.put nth (some d)) nth d image payload
  else (x, none)

/-! ### Mounts -/

/-- The path a dirty drive is saved at. -/
def savePath (x : Session) (drive : DriveImage) : Text :=
  truePath o (join [x.retain, drive.creationTimestamp ++ ascii "-" ++ base drive.path])

/-- `os.WriteFile`. -/
def writeFile (x : Session) (dest data : Text) : Session :=
  match o.saveFails x.saves.length with
  | none =>
    { x with
      host := Function.update x.host dest (some data)
      saves := x.saves ++ [⟨dest, data, true⟩] }
  | some left =>
    { x with
      host := Function.update x.host dest left
      saves := x.saves ++ [⟨dest, data, false⟩] }

/-- Save a drive if it is dirty, and delete its record, also if there was an error. -/
def hdbDosCleanupOneDrive (x : Session) (driveNum : Fin NumDrives) : Session :=
  match x.drives driveNum with
  | none => x
  | some drive =>
    if drive.dirty then
      (writeFile o x (savePath o x drive) (drive.image.getD [])).put driveNum none
    else x

def hdbDosCleanup (x : Session) : Session :=
  (List.finRange NumDrives).foldl (hdbDosCleanupOneDrive o) x

/-- Save a drive if it is dirty, and unmount it. -/
def unmount (x : Session) (nth : Fin NumDrives) : Session :=
  (hdbDosCleanupOneDrive o x nth).put nth none

/-- `UnmountAllAction.Do`. -/
def unmountAll (x : Session) : Session := (List.finRange NumDrives).foldl (unmount o) x

/-- The drives on which a model is mounted. -/
def mountedOn (x : Session) (c : Model) : List (Fin NumDrives) :=
  (List.finRange NumDrives).filter fun nth =>
    match x.drives nth with
    | none => false
    | some e => e.path == c.path

/-- The drive on which a model is mounted, if it is. The outer `none` is a panic. -/
def isModelMounted (x : Session) (c : Model) : Option (Option (Fin NumDrives)) :=
  match mountedOn x c with
  | [] => some none
  | [mounted] => some (some mounted)
  | _ => none

/-- The record `SetDrive` puts in. -/
def mountedRecord (c : Model) : DriveImage :=
  match c.base with
  | some (isDir, size) =>
    if isDir = false ∧ size ∈ FloppySizes then { DriveImage.new with path := c.path } else .new
  | none => .new

/-- `SetDrive`. The flag says that it has not panicked. -/
def setDrive (x : Session) (nth : Fin NumDrives) (c : Model) : Session × Bool :=
  match isModelMounted x c with
  | none => (x, false)
  | some (some mounted) =>
    -- already mounted on the correct drive
    if nth = mounted then (x, true)
    else ((unmount o (unmount o x mounted) nth).put nth (some (mountedRecord c)), true)
  | some none => ((unmount o x nth).put nth (some (mountedRecord c)), true)

/-! ### Runs -/

inductive Action
  | sector (payload now : Text)
  | mount (nth : Fin NumDrives) (c : Model)
  | unmountAll
  | cleanup

/-- A step of a session: the messages it writes, or `none` for a panic. -/
def step (x : Session) : Action → Session × Option (List Message)
  | .sector payload now => hdbDosSector o x payload now
  | .mount nth c => ((setDrive o x nth c).1, if (setDrive o x nth c).2 then some [] else none)
  | .unmountAll => (unmountAll o x, some [])
  | .cleanup => (hdbDosCleanup o x, some [])

/-! ### What a sector does to the records -/

section

variable {o : Outside} {x : Session}

@[simp] theorem drives_put_self (nth : Fin NumDrives) (d : Option DriveImage) :
    (x.put nth d).drives nth = d := by
  show Function.update x.drives nth d nth = d
  rw [Function.update_self]

theorem drives_put_of_ne {nth m : Fin NumDrives} (apart : m ≠ nth) (d : Option DriveImage) :
    (x.put nth d).drives m = x.drives m := by
  show Function.update x.drives nth d m = x.drives m
  rw [Function.update_of_ne apart]

@[simp] theorem put_put (nth : Fin NumDrives) (d d' : Option DriveImage) :
    (x.put nth d).put nth d' = x.put nth d' := by
  rw [Session.put, Session.put, Session.put, Function.update_idem]

/-- The path of a record when it is dirtied. -/
def dirtiedPath (nth : Fin NumDrives) (d : DriveImage) : Text :=
  if d.path = [] then newDriveTempName nth else d.path

/-- What a sector makes of the record of its drive. -/
inductive Becomes (o : Outside) (x : Session) (now : Text) (nth : Fin NumDrives)
    (record : DriveImage) : DriveImage → Prop
  | same : Becomes o x now nth record record
  | opened {d : DriveImage} (opened : openDrive o x record now = some d) :
    Becomes o x now nth record d
  | named {d : DriveImage} (opened : openDrive o x record now = some d) :
    Becomes o x now nth record { d with path := dirtiedPath nth d }
  | written {d : DriveImage} {image : Text} (front : Nat) (data : Text)
    (opened : openDrive o x record now = some d) (whole : d.image = some image) :
    Becomes o x now nth record
      { d with
        path := dirtiedPath nth d, image := some (copySector image front data), dirty := true }

theorem sectorCommand_cases {nth : Fin NumDrives} {d : DriveImage} {image : Text}
    (payload now : Text) {record : DriveImage} (opened : openDrive o x record now = some d)
    (whole : d.image = some image) :
    ∃ d' n, (sectorCommand o (x.put nth (some d)) nth d image payload).1 =
      { x.put nth (some d') with numReads := n } ∧ Becomes o x now nth record d' := by
  rw [sectorCommand]
  split
  · dsimp only
    split
    · exact ⟨d, _, rfl, .opened opened⟩
    · split
      · exact ⟨d, _, rfl, .opened opened⟩
      · exact ⟨d, _, rfl, .opened opened⟩
  · dsimp only
    split
    · rw [put_put]
      exact ⟨_, _, rfl, .written _ _ opened whole⟩
    · rw [put_put]
      exact ⟨_, _, rfl, .named opened⟩
  · exact ⟨d, _, rfl, .opened opened⟩

theorem sectorCommand_read {nth : Fin NumDrives} {d : DriveImage} {image payload : Text}
    {injections : List Message} (reads : payload.head? = some 2)
    (sent : (if x.numReads + 1 = 1 then sendInitialInjections o else some []) = some injections)
    (inside : 256 * (lsnBig payload % 630) + 256 ≤ image.length) :
    sectorCommand o x nth d image payload =
      ({ x with numReads := x.numReads + 1 },
        some (injections ++ [sectorReply payload image (256 * (lsnBig payload % 630))])) := by
  simp only [sectorCommand, reads, sent, if_pos inside]

theorem sectorCommand_write {nth : Fin NumDrives} {d : DriveImage} {image payload : Text}
    (writes : payload.head? = some 3)
    (inside : 256 * (lsnBig payload % 630) + 256 ≤ image.length) :
    sectorCommand o x nth d image payload =
      (x.put nth (some { d with
        path := if d.path = [] then newDriveTempName nth else d.path
        image := some (copySector image (256 * (lsnBig payload % 630)) (payload.drop 5))
        dirty := true }), some []) := by
  simp only [sectorCommand, writes, if_pos inside]

/-- A sector changes the record of one drive at most, and no file. -/
theorem hdbDosSector_cases (o : Outside) (x : Session) (payload now : Text) :
    (hdbDosSector o x payload now).1 = x ∨
      ∃ nth d n, (hdbDosSector o x payload now).1 =
        { x.put nth (some d) with numReads := n } ∧ Becomes o x now nth (x.record nth) d := by
  rw [hdbDosSector]
  split
  · exact .inl rfl
  split
  · rename_i small
    dsimp only
    split
    · exact .inr ⟨_, _, _, rfl, .same⟩
    · rename_i d opened
      replace opened : openDrive o x (x.record ⟨lsnBig payload / 630, small⟩) now = some d := opened
      split
      · exact .inr ⟨_, _, _, rfl, .same⟩
      · rename_i image whole
        rw [put_put]
        exact .inr ⟨_, sectorCommand_cases payload now opened whole⟩
  · exact .inl rfl

/-! ### What an unmount does to the records -/

@[simp] theorem drives_writeFile (dest data : Text) : (writeFile o x dest data).drives = x.drives := by
  rw [writeFile]
  split
  · rfl
  · rfl

theorem drives_hdbDosCleanupOneDrive (nth : Fin NumDrives) :
    (hdbDosCleanupOneDrive o x nth).drives = x.drives ∨
      (hdbDosCleanupOneDrive o x nth).drives = (x.put nth none).drives := by
  rw [hdbDosCleanupOneDrive]
  split
  · exact .inl rfl
  · split
    · rw [Session.put, drives_writeFile]
      exact .inr rfl
    · exact .inl rfl

theorem drives_unmount (nth : Fin NumDrives) :
    (unmount o x nth).drives = (x.put nth none).drives := by
  show Function.update (hdbDosCleanupOneDrive o x nth).drives nth none =
    Function.update x.drives nth none
  obtain same | deleted := @drives_hdbDosCleanupOneDrive o x nth
  · rw [same]
  · rw [deleted, Session.put, Function.update_idem]

/-! ### Sound records -/

/-- An image is not smaller than a drive, and a dirty record has one. -/
structure DriveImage.Sound (d : DriveImage) : Prop where
  whole : ∀ image, d.image = some image → 161280 ≤ image.length
  dirty : d.dirty = true → ∃ image, d.image = some image

def AllSound (x : Session) : Prop := ∀ nth d, x.drives nth = some d → d.Sound

theorem length_emptyDecbInitializedDiskImage :
    emptyDecbInitializedDiskImage.length = 161280 := by
  rw [emptyDecbInitializedDiskImage, List.length_map, List.length_range]

theorem le_of_mem_floppySizes {size : Nat} (member : size ∈ FloppySizes) : 161280 ≤ size := by
  simp only [FloppySizes, List.mem_cons, List.not_mem_nil, or_false] at member
  omega

theorem length_copySector (image : Text) (front : Nat) (data : Text) :
    image.length ≤ (copySector image front data).length :=
  length_le_writeAt 0 front (data.take 256) image

theorem sound_of_image_eq_none {d : DriveImage} (closed : d.image = none)
    (clean : d.dirty = false) : d.Sound where
  whole image same := by
    rw [closed] at same
    cases same
  dirty dirty := by
    rw [clean] at dirty
    cases dirty

theorem sound_new : DriveImage.new.Sound := sound_of_image_eq_none rfl rfl

theorem sound_of_image {d : DriveImage} {image : Text} (same : d.image = some image)
    (large : 161280 ≤ image.length) : d.Sound where
  whole image' same' := by
    rw [← Option.some.inj (same.symm.trans same')]
    exact large
  dirty _ := ⟨image, same⟩

theorem sound_mountedRecord (c : Model) : (mountedRecord c).Sound := by
  rw [mountedRecord]
  split
  · split
    · exact sound_of_image_eq_none rfl rfl
    · exact sound_new
  · exact sound_new

/-- The images that are read are of a floppy's size. -/
theorem DriveImage.Sound.openDrive {d d' : DriveImage} {now : Text} (sound : d.Sound)
    (opened : openDrive o x d now = some d') : d'.Sound := by
  rw [HdbDos.openDrive] at opened
  split at opened
  · rw [← Option.some.inj opened]
    exact sound
  · split at opened
    · rw [← Option.some.inj opened]
      exact sound_of_image rfl (Nat.le_of_eq length_emptyDecbInitializedDiskImage.symm)
    · split at opened
      · cases opened
      · split at opened
        · rename_i size
          rw [← Option.some.inj opened]
          exact sound_of_image rfl (le_of_mem_floppySizes size)
        · cases opened

theorem DriveImage.Sound.becomes {nth : Fin NumDrives} {record d : DriveImage} {now : Text}
    (sound : record.Sound) (becomes : Becomes o x now nth record d) : d.Sound := by
  cases becomes with
  | same => exact sound
  | opened opened => exact sound.openDrive opened
  | named opened => exact ⟨(sound.openDrive opened).whole, (sound.openDrive opened).dirty⟩
  | written front data opened whole =>
    exact sound_of_image rfl
      (((sound.openDrive opened).whole _ whole).trans (length_copySector _ _ _))

theorem AllSound.record (sound : AllSound x) (nth : Fin NumDrives) : (x.record nth).Sound := by
  rw [Session.record]
  cases there : x.drives nth with
  | none => exact sound_new
  | some d => exact sound nth d there

theorem AllSound.put (sound : AllSound x) {nth : Fin NumDrives} {d : DriveImage} (good : d.Sound) :
    AllSound (x.put nth (some d)) := by
  intro m d' there
  by_cases here : m = nth
  · rw [here, drives_put_self] at there
    exact Option.some.inj there ▸ good
  · rw [drives_put_of_ne here] at there
    exact sound m d' there

theorem AllSound.delete (sound : AllSound x) (nth : Fin NumDrives) :
    AllSound (x.put nth none) := by
  intro m d' there
  by_cases here : m = nth
  · rw [here, drives_put_self] at there
    cases there
  · rw [drives_put_of_ne here] at there
    exact sound m d' there

theorem AllSound.cleanup (sound : AllSound x) (nth : Fin NumDrives) :
    AllSound (hdbDosCleanupOneDrive o x nth) := by
  rw [hdbDosCleanupOneDrive]
  split
  · exact sound
  · split
    · refine AllSound.delete ?_ nth
      rw [writeFile]
      split
      · exact sound
      · exact sound
    · exact sound

theorem AllSound.unmount (sound : AllSound x) (nth : Fin NumDrives) :
    AllSound (unmount o x nth) := (sound.cleanup nth).delete nth

theorem AllSound.foldl {f : Session → Fin NumDrives → Session}
    (kept : ∀ x nth, AllSound x → AllSound (f x nth)) (nths : List (Fin NumDrives))
    (sound : AllSound x) : AllSound (nths.foldl f x) := by
  induction nths generalizing x with
  | nil => exact sound
  | cons nth nths inductionHypothesis => exact inductionHypothesis (kept x nth sound)

theorem AllSound.step (sound : AllSound x) (action : Action) : AllSound (step o x action).1 := by
  cases action with
  | unmountAll => exact AllSound.foldl (fun _ nth sound => sound.unmount nth) _ sound
  | cleanup => exact AllSound.foldl (fun _ nth sound => sound.cleanup nth) _ sound
  | sector payload now =>
    show AllSound (hdbDosSector o x payload now).1
    obtain same | ⟨nth, d, n, changed, becomes⟩ := hdbDosSector_cases o x payload now
    · rw [same]
      exact sound
    · rw [changed]
      exact sound.put ((sound.record nth).becomes becomes)
  | mount nth c =>
    show AllSound (setDrive o x nth c).1
    rw [setDrive]
    split
    · exact sound
    · split
      · exact sound
      · exact ((sound.unmount _).unmount nth).put (sound_mountedRecord c)
    · exact (sound.unmount nth).put (sound_mountedRecord c)

theorem allSound_newDriveSession (retain : Text) (host : Text → Option Text) :
    AllSound (newDriveSession retain host) := nofun

end

end Frobio.HdbDos
