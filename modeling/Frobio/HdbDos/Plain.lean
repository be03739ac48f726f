/-
This file shows that the emulated drives are plain disks: between mounts and unmounts,
reads and writes of sectors give the replies that ten arrays of 630 sectors give.

What is on a drive is its image, or what the image will be once the drive is opened, so
that opening a drive changes nothing.
-/

import Frobio.HdbDos.Drives

namespace Frobio.HdbDos

open Coms Positional SlashPath Transcript

/-! ### Plain disks -/

/-- The sectors of the drives, by the number of the drive and of the sector. -/
abbrev Disks : Type := Nat → Nat → Text

/-- What a read replies, and what a write stores. -/
def plainStep (disks : Disks) (request : Text × Text) : Disks × List Message :=
  let payload := request.1
  let drive := lsnBig payload / 630
  let sector := lsnBig payload % 630
  if payload.head? = some 2 then
    (disks, [Message.of CMD_HDBDOS_SECTOR 0 (payload.take 5 ++ disks drive sector)])
  else
    (Function.update disks drive (Function.update (disks drive) sector (payload.drop 5)), [])

/-- A read or a write of a sector that is on one of the drives. -/
def IsRequest (payload : Text) : Prop :=
  payload.length = 261 ∧ (payload.head? = some 2 ∨ payload.head? = some 3) ∧
    lsnBig payload < 6300

/-! ### What is on a drive -/

variable (o : Outside)

/-- The image of a drive, or what it will be. -/
def contentOf (x : Session) (d : DriveImage) : Option Text :=
  match d.image with
  | some image => some image
  | none =>
    if d.path = [] then some emptyDecbInitializedDiskImage
    else (x.host (truePath o d.path)).filter fun bb => bb.length ∈ FloppySizes

def imageOf (x : Session) (nth : Fin NumDrives) : Option Text := contentOf o x (x.record nth)

/-- The sectors of a session's drives. -/
def disksOf (x : Session) : Disks := fun drive sector =>
  if small : drive < NumDrives then
    readAt (256 * sector) 256 ((imageOf o x ⟨drive, small⟩).getD [])
  else []

/-- Every image that is not opened yet is in a file of a floppy's size. -/
def Readable (x : Session) : Prop :=
  ∀ nth d, x.drives nth = some d → d.image = none → d.path ≠ [] →
    ∃ bb, x.host (truePath o d.path) = some bb ∧ bb.length ∈ FloppySizes

/-- Every drive has an image, or will have one. -/
structure Mounted (x : Session) : Prop where
  image : ∀ nth, ∃ image, imageOf o x nth = some image ∧ 161280 ≤ image.length

section

variable {o : Outside} {x : Session}

theorem openDrive_of_content {d : DriveImage} {image : Text} (content : contentOf o x d = some image)
    (now : Text) : ∃ d', openDrive o x d now = some d' ∧ d'.image = some image := by
  rw [contentOf] at content
  rw [openDrive]
  cases opened : d.image with
  | some old =>
    rw [opened] at content
    exact ⟨d, rfl, opened.trans content⟩
  | none =>
    rw [opened] at content
    dsimp only at content ⊢
    split at content
    · rename_i nameless
      rw [if_pos nameless]
      exact ⟨_, rfl, content⟩
    · rename_i named
      obtain ⟨file, size⟩ := Option.filter_eq_some_iff.mp content
      rw [if_neg named, file]
      dsimp only
      rw [if_pos (of_decide_eq_true size)]
      exact ⟨_, rfl, rfl⟩

/-- If the mounted files can be read, every drive has an image or will have one. -/
theorem AllSound.mounted (sound : AllSound x) (readable : Readable o x) : Mounted o x where
  image nth := by
    rw [imageOf, contentOf]
    cases opened : (x.record nth).image with
    | some image => exact ⟨image, rfl, (sound.record nth).whole image opened⟩
    | none =>
      dsimp only
      split
      · exact ⟨_, rfl, Nat.le_of_eq length_emptyDecbInitializedDiskImage.symm⟩
      · rename_i named
        rw [Session.record] at opened named ⊢
        cases there : x.drives nth with
        | none =>
          rw [there] at named
          exact absurd rfl named
        | some d =>
          rw [there] at opened named
          obtain ⟨bb, file, size⟩ := readable nth d there opened named
          refine ⟨bb, ?_, le_of_mem_floppySizes size⟩
          exact Option.filter_eq_some_iff.mpr ⟨file, decide_eq_true size⟩

/-! ### Injections -/

theorem command_of_mem_injectChunks {sideload : Text} {rounds endAddr : Nat} {bb : Text}
    {m : Message} (member : m ∈ injectChunks sideload rounds endAddr bb) :
    m.command = CMD_HDBDOS_EXEC := by
  induction rounds generalizing endAddr bb with
  | zero => cases member
  | succ rounds inductionHypothesis =>
    rw [injectChunks] at member
    split at member
    · cases member
    split at member
    · rcases List.mem_cons.mp member with rfl | later
      · rfl
      · exact inductionHypothesis later
    · rw [List.mem_singleton.mp member]
      rfl

/-- The messages that are about sectors. -/
def sectorMessages (messages : List Message) : List Message :=
  messages.filter fun m => m.command == CMD_HDBDOS_SECTOR

theorem sectorMessages_injections {injections : List Message}
    (sent : sendInitialInjections o = some injections) : sectorMessages injections = [] := by
  obtain ⟨sideload, -, sent⟩ := Option.bind_eq_some_iff.mp sent
  obtain ⟨bb, -, rfl⟩ := Option.map_eq_some_iff.mp sent
  refine List.filter_eq_nil_iff.mpr fun m member => ?_
  have exec : m.command = CMD_HDBDOS_EXEC := by
    rcases List.mem_cons.mp member with rfl | later
    · rfl
    · exact command_of_mem_injectChunks later
  rw [exec]
  decide

/-! ### Sectors -/

theorem contentOf_image {d : DriveImage} {image : Text} (opened : d.image = some image) :
    contentOf o x d = some image := by
  rw [contentOf, opened]

theorem imageOf_put (nth m : Fin NumDrives) (d : DriveImage) :
    imageOf o (x.put nth (some d)) m =
      if m = nth then contentOf o x d else imageOf o x m := by
  rw [imageOf, Session.record]
  by_cases here : m = nth
  · subst here
    rw [if_pos rfl]
    show contentOf o _ ((Function.update x.drives m (some d) m).getD .new) = _
    rw [Function.update_self]
    rfl
  · rw [if_neg here]
    show contentOf o _ ((Function.update x.drives nth (some d) m).getD .new) = _
    rw [Function.update_of_ne here]
    rfl

/-- A record with the same content makes no difference. -/
theorem imageOf_put_same {nth : Fin NumDrives} {d : DriveImage}
    (same : contentOf o x d = imageOf o x nth) : imageOf o (x.put nth (some d)) = imageOf o x := by
  funext m
  rw [imageOf_put]
  split
  · rename_i here
    rw [here]
    exact same
  · rfl

theorem disksOf_congr {x' : Session} (same : imageOf o x' = imageOf o x) :
    disksOf o x' = disksOf o x := by
  funext drive sector
  rw [disksOf, disksOf, same]

/-- A sector that is written is there, and all others are as they were. -/
theorem disksOf_write {nth : Fin NumDrives} {d : DriveImage} {image data : Text} {sector : Nat}
    (content : imageOf o x nth = some image) (large : 161280 ≤ image.length)
    (small : sector < 630) (whole : data.length = 256)
    (written : d.image = some (copySector image (256 * sector) data)) :
    disksOf o (x.put nth (some d)) =
      Function.update (disksOf o x) nth (Function.update (disksOf o x nth) sector data) := by
  have take : data.take 256 = data := List.take_of_length_le (Nat.le_of_eq whole)
  funext drive sector'
  by_cases here : drive = nth
  · subst here
    rw [Function.update_self, disksOf, dif_pos nth.isLt, imageOf_put, if_pos rfl,
      contentOf_image written, Option.getD_some, copySector, take]
    by_cases there : sector' = sector
    · subst there
      rw [Function.update_self, ← whole, Nat.mul_comm]
      exact readAt_writeAt 0 _ data image
    · rw [Function.update_of_ne there, disksOf, dif_pos nth.isLt, content, Option.getD_some]
      refine readAt_writeAt_of_apart 0 (by omega) ?_
      omega
  · rw [Function.update_of_ne here, disksOf, disksOf]
    by_cases small' : drive < NumDrives
    · rw [dif_pos small', dif_pos small', imageOf_put, if_neg fun same => here (congrArg Fin.val same)]
    · rw [dif_neg small', dif_neg small']

theorem plainStep_read {payload : Text} (reads : payload.head? = some 2) (disks : Disks)
    (now : Text) :
    plainStep disks (payload, now) =
      (disks, [Message.of CMD_HDBDOS_SECTOR 0
        (payload.take 5 ++ disks (lsnBig payload / 630) (lsnBig payload % 630))]) :=
  if_pos reads

theorem plainStep_write {payload : Text} (writes : payload.head? = some 3) (disks : Disks)
    (now : Text) :
    plainStep disks (payload, now) =
      (Function.update disks (lsnBig payload / 630)
        (Function.update (disks (lsnBig payload / 630)) (lsnBig payload % 630)
          (payload.drop 5)), []) := by
  refine if_neg ?_
  show ¬payload.head? = some 2
  rw [writes]
  decide

theorem IsRequest.long {payload : Text} (request : IsRequest payload) : 5 ≤ payload.length :=
  le_of_le_of_eq (by decide) request.1.symm

theorem IsRequest.command {payload : Text} (request : IsRequest payload) :
    payload.head? = some 2 ∨ payload.head? = some 3 ∧ payload.length = 261 :=
  request.2.1.imp id fun writes => ⟨writes, request.1⟩

/-- One sector gives what it gives on plain disks. The data is behind the request of a write. -/
theorem hdbDosSector_plain {payload : Text} (now : Text) (mounted : Mounted o x)
    (injects : (sendInitialInjections o).isSome = true) (long : 5 ≤ payload.length)
    (command : payload.head? = some 2 ∨ payload.head? = some 3 ∧ payload.length = 261)
    (below : lsnBig payload < 6300) :
    (hdbDosSector o x payload now).2.map sectorMessages =
        some (plainStep (disksOf o x) (payload, now)).2 ∧
      disksOf o (hdbDosSector o x payload now).1 =
        (plainStep (disksOf o x) (payload, now)).1 ∧
      Mounted o (hdbDosSector o x payload now).1 := by
  have small : lsnBig payload / 630 < NumDrives := by
    rw [NumDrives]
    omega
  obtain ⟨image, content, large⟩ := mounted.image ⟨lsnBig payload / 630, small⟩
  obtain ⟨d, opened, same⟩ := openDrive_of_content content now
  have recorded : imageOf o (x.put ⟨lsnBig payload / 630, small⟩
      (some (x.record ⟨lsnBig payload / 630, small⟩))) = imageOf o x := imageOf_put_same rfl
  rw [hdbDosSector, if_neg (Nat.not_lt.mpr long), dif_pos small]
  dsimp only
  have opened' : openDrive o (x.put ⟨lsnBig payload / 630, small⟩
      (some (x.record ⟨lsnBig payload / 630, small⟩))) (x.record ⟨lsnBig payload / 630, small⟩)
        now = some d := opened
  rw [opened']
  dsimp only
  rw [same]
  dsimp only
  generalize x.put ⟨lsnBig payload / 630, small⟩
    (some (x.record ⟨lsnBig payload / 630, small⟩)) = x₁ at recorded
  have content₁ : imageOf o (x₁.put ⟨lsnBig payload / 630, small⟩ (some d)) = imageOf o x := by
    rw [imageOf_put_same, recorded]
    rw [contentOf_image same, recorded, content]
  generalize x₁.put ⟨lsnBig payload / 630, small⟩ (some d) = x₂ at content₁
  have mounted₂ : Mounted o x₂ := ⟨fun nth => by rw [content₁]; exact mounted.image nth⟩
  have inside : 256 * (lsnBig payload % 630) + 256 ≤ image.length := by omega
  have sector : disksOf o x (lsnBig payload / 630) (lsnBig payload % 630) =
      readAt (256 * (lsnBig payload % 630)) 256 image := by
    rw [disksOf, dif_pos small, content]
    rfl
  rcases command with reads | ⟨writes, full⟩
  · have injected : ∃ injections,
        (if x₂.numReads + 1 = 1 then sendInitialInjections o else some []) = some injections ∧
          sectorMessages injections = [] := by
      split
      · obtain ⟨injections, sent⟩ := Option.isSome_iff_exists.mp injects
        exact ⟨injections, sent, sectorMessages_injections sent⟩
      · exact ⟨[], rfl, rfl⟩
    obtain ⟨injections, sent, none⟩ := injected
    rw [plainStep_read reads, sectorCommand_read reads sent inside, sector]
    refine ⟨?_, disksOf_congr content₁, ⟨mounted₂.image⟩⟩
    rw [Option.map_some, sectorMessages, List.filter_append, ← sectorMessages, none]
    rfl
  · rw [plainStep_write writes, sectorCommand_write writes inside]
    have whole : (payload.drop 5).length = 256 := by
      rw [List.length_drop, full]
    have content₂ : imageOf o x₂ ⟨lsnBig payload / 630, small⟩ = some image := by
      rw [content₁]
      exact content
    refine ⟨rfl, ?_, ⟨fun nth => ?_⟩⟩
    · rw [disksOf_write content₂ large (Nat.mod_lt _ (by decide)) whole rfl,
        disksOf_congr content₁]
    · rw [imageOf_put]
      split
      · exact ⟨_, rfl, large.trans (length_copySector _ _ _)⟩
      · exact mounted₂.image nth

end

/-- After any mounts, unmounts and requests, if the files that are mounted can be read: the replies
to any reads and writes of sectors are those of plain disks with what is on the drives, and what is
on the drives in the end is what is on the disks. -/
theorem drives_are_plainDisks (o : Outside) (retain : Text) (host : Text → Option Text)
    (history : List Action) (requests : List (Text × Text))
    (readable : Readable o (after (step o) (newDriveSession retain host) history))
    (injects : (sendInitialInjections o).isSome = true)
    (each : ∀ request ∈ requests, IsRequest request.1) :
    List.Forall₂ (fun sent plain => sent.map sectorMessages = some plain)
      (outputs (fun x request => hdbDosSector o x request.1 request.2)
        (after (step o) (newDriveSession retain host) history) requests)
      (outputs plainStep (disksOf o (after (step o) (newDriveSession retain host) history))
        requests) ∧
    disksOf o (after (fun x request => hdbDosSector o x request.1 request.2)
        (after (step o) (newDriveSession retain host) history) requests) =
      after plainStep (disksOf o (after (step o) (newDriveSession retain host) history))
        requests := by
  have sound : AllSound (after (step o) (newDriveSession retain host) history) :=
    invariant_after AllSound (fun _ action sound => sound.step action)
      (allSound_newDriveSession retain host) history
  have mounted := sound.mounted readable
  generalize after (step o) (newDriveSession retain host) history = x at mounted
  obtain ⟨agree, related⟩ := outputs_agree_iff
    (fun x request => hdbDosSector o x request.1 request.2) plainStep
    (fun x disks => disksOf o x = disks ∧ Mounted o x)
    (fun sent plain => sent.map sectorMessages = some plain) (fun _ _ => True)
    (fun request => IsRequest request.1)
    (fun x disks request start allowed => by
      obtain ⟨rfl, mounted⟩ := start
      exact iff_of_true (hdbDosSector_plain request.2 mounted injects
        allowed.long allowed.command allowed.2.2).1 trivial)
    (fun x disks request start allowed _ => by
      obtain ⟨rfl, mounted⟩ := start
      exact (hdbDosSector_plain request.2 mounted injects
        allowed.long allowed.command allowed.2.2).2)
    ⟨rfl, mounted⟩ each
  exact ⟨agree.mpr (always_true _ _), (related (always_true _ _)).1⟩

/-! ### A mounted game -/

def gameOutside : Outside where
  navRoot := ascii "/nav"
  sideload := some [0x12, 0x39]
  inkey := some [0x39]
  saveFails _ := none

def gameHost (path : Text) : Option Text :=
  if path = ascii "/nav/GAME.DSK" then some (List.replicate 161280 7) else none

def gameHistory : List Action := [.mount 2 ⟨ascii "GAME.DSK", some (false, 161280)⟩]

/-- A write to sector 5 of drive 2, a read of it, and a read of drive 3, which is not mounted. -/
def gameRequests : List (Text × Text) :=
  [([3, 0, 0, 0x04, 0xF1] ++ List.replicate 256 0xAA, ascii "0102-150405"),
    ([2, 0, 0, 0x04, 0xF1] ++ List.replicate 256 0, ascii "0102-150406"),
    ([2, 0, 0, 0x07, 0x62] ++ List.replicate 256 0, ascii "0102-150407")]

theorem drives_game :
    ∀ nth, (after (step gameOutside) (newDriveSession (ascii "r") gameHost) gameHistory).drives nth =
      if nth = 2 then some { DriveImage.new with path := ascii "GAME.DSK" } else none := by
  decide +kernel

theorem readable_game :
    Readable gameOutside
      (after (step gameOutside) (newDriveSession (ascii "r") gameHost) gameHistory) := by
  intro nth d there _ _
  rw [drives_game] at there
  split at there
  · rw [← Option.some.inj there]
    refine ⟨List.replicate 161280 7, ?_, ?_⟩
    · show gameHost (truePath gameOutside (ascii "GAME.DSK")) = _
      exact if_pos (by decide +kernel)
    · rw [List.length_replicate]
      decide
  · cases there

theorem isRequest_gameRequests : ∀ request ∈ gameRequests, IsRequest request.1 := by
  simp only [IsRequest]
  decide +kernel

theorem drives_are_plainDisks_game :
    List.Forall₂ (fun sent plain => sent.map sectorMessages = some plain)
      (outputs (fun x request => hdbDosSector gameOutside x request.1 request.2)
        (after (step gameOutside) (newDriveSession (ascii "r") gameHost) gameHistory) gameRequests)
      (outputs plainStep (disksOf gameOutside
        (after (step gameOutside) (newDriveSession (ascii "r") gameHost) gameHistory))
        gameRequests) ∧
    disksOf gameOutside (after (fun x request => hdbDosSector gameOutside x request.1 request.2)
        (after (step gameOutside) (newDriveSession (ascii "r") gameHost) gameHistory)
        gameRequests) =
      after plainStep (disksOf gameOutside
        (after (step gameOutside) (newDriveSession (ascii "r") gameHost) gameHistory))
        gameRequests :=
  drives_are_plainDisks gameOutside (ascii "r") gameHost gameHistory gameRequests readable_game rfl
    isRequest_gameRequests

end Frobio.HdbDos
