/-
This file models `lemma/rsdos/rsdos-disk.go`: what is read off the image of a floppy disk
that has an RSDOS or an OS-9 file system.

An image is its bytes. A panic is `none`; where a slice is taken beyond the end of an image
the size is refused later at the latest, so that this is a panic as well.
-/

import Mathlib.Data.List.DropRight
import Frobio.Coms.Quint
import Frobio.Lib.Positional

namespace Frobio.Rsdos

open Coms Positional

abbrev Text := List UInt8

/-! ### Layout -/

def FloppySize35 : Nat := 161280
def BytesPerSector : Nat := 256
def SectorsPerTrack : Nat := 18
def SectorsPerGranule : Nat := 9
def DirectoryTrack : Nat := 17
def FatLSN : Nat := SectorsPerTrack * DirectoryTrack + 1
def FirstDirectoryLSN : Nat := SectorsPerTrack * DirectoryTrack + 2
def NumDirectorySectors : Nat := 8
def DirEntrySize : Nat := 32

/-! ### Records -/

structure FileRec where
  FileName : Text
  FileType : Nat
  IsAscii : Bool
  Granules : List UInt8
  SectorsInLastGranule : Nat
  BytesInLastSector : Nat
  Size : Int
  deriving DecidableEq

structure Os9DiskRec where
  totalSectors : Nat
  sectorsPerCluster : Nat
  volumeName : Text
  allocationMapSize : Nat
  rootSector : Nat
  format : Nat
  deriving DecidableEq

structure RSDiskRec where
  files : List FileRec
  freeGranules : Nat
  totalGranules : Nat
  numTracks : Nat
  volumeName : Text
  os : Text
  deriving DecidableEq

inductive DiskRec
  | os9 (d : Os9DiskRec)
  | rsdos (d : RSDiskRec)
  deriving DecidableEq

/-! ### OS-9 disks -/

def AllAre (bb : Text) (val : UInt8) : Bool := bb.all (· == val)

/-- The name ends after the byte with the high bit. -/
def nameToHighBit : Text → Text
  | [] => []
  | ch :: rest =>
    let low := ch &&& 0x7F
    let shown := if 32 ≤ low ∧ low ≤ 126 then low else 63
    if ch &&& 0x80 ≠ 0 then [shown] else shown :: nameToHighBit rest

def ParseOs9Disk (a : Text) : Os9DiskRec where
  totalSectors := (a.getD 0 0).toNat * 65536 + (a.getD 1 0).toNat * 256 + (a.getD 2 0).toNat
  sectorsPerCluster := (a.getD 6 0).toNat
  volumeName := nameToHighBit (readAt 0x1F 0x20 a)
  allocationMapSize := (a.getD 1 0).toNat * 16 ||| (a.getD 5 0).toNat
  rootSector := (a.getD 8 0).toNat * 65536 + (a.getD 9 0).toNat * 256 + (a.getD 10 0).toNat
  format := (a.getD 16 0).toNat

/-! ### Granules -/

/-- The entry of a granule in the allocation table. -/
def link (fat : Text) (granule : UInt8) : UInt8 := fat.getD granule.toNat 0

/-- The loop over the granules of a file, with the rounds that are left. It gives the granules
and the last entry it has seen. -/
def granuleLoop (fat : Text) (totalGranules : Nat) :
    Nat → Nat → UInt8 → List UInt8 → Option (List UInt8 × UInt8)
  | 0, _, granule, granules => some (granules, granule)
  | rounds + 1, j, granule, granules =>
    if totalGranules < j then none
    else
      let granule := link fat granule
      if granule < 0xC0 then
        granuleLoop fat totalGranules rounds (j + 1) granule (granules ++ [granule])
      else some (granules, granule)

/-! ### Files -/

/-- `strings.TrimRight` of blanks and NULs. -/
def trimRight (name : Text) : Text := name.rdropWhile fun ch => ch == 32 || ch == 0

def fileName (entry : Text) : Text :=
  let filename := trimRight (readAt 0 8 entry)
  let extension := trimRight (readAt 8 3 entry)
  if extension ≠ [] then filename ++ ascii "." ++ extension else filename

/-- An entry is skipped when it is deleted or was never used. -/
def Live (entry : Text) : Prop := entry.getD 0 0 ≠ 0 ∧ entry.getD 0 0 ≠ 255

instance (entry : Text) : Decidable (Live entry) := inferInstanceAs (Decidable (_ ∧ _))

def firstGranule (entry : Text) : UInt8 := entry.getD 13 0

def bytesInLastSector (entry : Text) : Nat :=
  (entry.getD 14 0).toNat * 256 + (entry.getD 15 0).toNat

/-- The size of a file with this many granules, whose last entry has the number of sectors. -/
def sizeOf (density granules : Nat) (last : UInt8) (bytes : Nat) : Int :=
  let numSectorsInLastGranule := (last &&& 0x3F).toNat
  let numSectors : Int := (granules - 1 : Int) * density * SectorsPerGranule + numSectorsInLastGranule
  (numSectors - 1) * BytesPerSector + bytes

def parseFile (fat : Text) (totalGranules density : Nat) (entry : Text) : Option FileRec :=
  (granuleLoop fat totalGranules 256 0 (firstGranule entry) [firstGranule entry]).map
    fun (granules, last) =>
      { FileName := fileName entry
        FileType := (entry.getD 11 0).toNat
        IsAscii := entry.getD 12 0 = 255
        Granules := granules
        SectorsInLastGranule := (last &&& 0x3F).toNat
        BytesInLastSector := bytesInLastSector entry
        Size := sizeOf density granules.length last (bytesInLastSector entry) }

def parseFiles (fat : Text) (totalGranules density : Nat) : List Text → Option (List FileRec)
  | [] => some []
  | entry :: entries =>
    if Live entry then do
      let file ← parseFile fat totalGranules density entry
      let files ← parseFiles fat totalGranules density entries
      return file :: files
    else parseFiles fat totalGranules density entries

/-! ### Disks -/

/-- One side up to 40 tracks of 18 sectors, and two sides above. -/
def densityOf (numSectors : Nat) : Nat := if numSectors ≤ 720 then 1 else 2

def numTracksOf (contents : Text) : Nat :=
  contents.length / (densityOf (contents.length / BytesPerSector) * SectorsPerTrack * BytesPerSector)

def totalGranulesOf (contents : Text) : Nat :=
  let density := densityOf (contents.length / BytesPerSector)
  numTracksOf contents * (density * SectorsPerTrack / SectorsPerGranule)

/-- The image from the allocation table on. -/
def fromFat (contents : Text) : Text :=
  contents.drop (densityOf (contents.length / BytesPerSector) * FatLSN * BytesPerSector)

/-- The sector of the allocation table. -/
def fatOf (contents : Text) : Text := (fromFat contents).take BytesPerSector

/-- The entries of the directory, the first so many. -/
def entriesOf (contents : Text) (count : Nat) : List Text :=
  let start := densityOf (contents.length / BytesPerSector) * FirstDirectoryLSN * BytesPerSector
  (List.range count).map fun nth => readAt (start + DirEntrySize * nth) DirEntrySize contents

/-- The entries of the table for which `freeGranules` is counted up. -/
def countedFree (contents : Text) : List Nat :=
  (List.range (totalGranulesOf contents)).filter fun i =>
    i / 2 ≠ DirectoryTrack ∧ (fromFat contents).getD i 0 = 255

def freeCount (contents : Text) : Nat := (countedFree contents).length

def volumeNameOf (contents : Text) : Text :=
  let start := BytesPerSector * (16 + DirectoryTrack * SectorsPerTrack)
  (readAt start 32 contents).takeWhile fun ch => 32 ≤ ch ∧ ch ≤ 126

def isLetter (ch : UInt8) : Bool := 65 ≤ ch && ch ≤ 90 || 97 ≤ ch && ch ≤ 122

def osOf (contents : Text) : Text :=
  let start := BytesPerSector * (34 * SectorsPerTrack)
  if 35 ≤ numTracksOf contents ∧ contents.getD start 0 = 79 ∧ contents.getD (start + 1) 0 = 83 then
    ((readAt start 1024 contents).filter isLetter).take 64
  else []

def IsSdf1 (contents : Text) : Prop := ascii "SDF1" <+: contents

/-- What OS-9 leaves in the first sector and its allocation map. -/
def LooksLikeOs9 (contents : Text) : Prop :=
  AllAre (readAt 0x80 0x80 contents) 0 = true ∧ AllAre (readAt 0x100 8 contents) 255 = true

instance (contents : Text) : Decidable (IsSdf1 contents) :=
  inferInstanceAs (Decidable (_ <+: _))

instance (contents : Text) : Decidable (LooksLikeOs9 contents) :=
  inferInstanceAs (Decidable (_ ∧ _))

def DiskParse (contents : Text) : Option DiskRec :=
  if IsSdf1 contents then none
  else if contents.length % BytesPerSector ≠ 0 ∨ contents.length < 0x108 then none
  else if LooksLikeOs9 contents then some (.os9 (ParseOs9Disk contents))
  else
    let numSectors := contents.length / BytesPerSector
    if numSectors < 324 ∨ 2880 < numSectors then none
    else
      let entries := entriesOf contents (NumDirectorySectors * BytesPerSector / DirEntrySize)
      let total := totalGranulesOf contents
      (parseFiles (fatOf contents) total (densityOf numSectors) entries).map fun files =>
        .rsdos
          { files := files
            freeGranules := freeCount contents
            totalGranules := total
            numTracks := numTracksOf contents
            volumeName := volumeNameOf contents
            os := osOf contents }

end Frobio.Rsdos
