/-
This file shows for which images the files that `DiskParse` lists are sound: no granule
twice, none beyond the disk, an end that is marked, and a size that the granules can hold.
-/

import Frobio.Rsdos.Chains

namespace Frobio.Rsdos

open Coms Positional

/-! ### The law -/

/-- What is promised of a file of a disk. -/
structure SafeFile (fat : Text) (total density : Nat) (file : FileRec) : Prop where
  noneTwice : file.Granules.Nodup
  below : ∀ granule ∈ file.Granules, granule.toNat < total
  ends : ∃ final, file.Granules.getLast? = some final ∧ ¬link fat final < 0xC0
  sized : 0 ≤ file.Size ∧
    file.Size ≤ file.Granules.length * (density * SectorsPerGranule * BytesPerSector)

/-- The files of every listing are safe. -/
def Safe (contents : Text) : Prop :=
  ∀ d, DiskParse contents = some (.rsdos d) → ∀ file ∈ d.files,
    SafeFile (fatOf contents) d.totalGranules (densityOf (contents.length / BytesPerSector)) file

/-! ### The condition -/

/-- The chain of an entry ends, its granules are on the disk, and its last entry, with the bytes
in the last sector, says neither less than nothing nor more than a granule. -/
def Sound (fat : Text) (total density : Nat) (entry : Text) : Prop :=
  ∃ granules last, Chain fat (firstGranule entry) granules last ∧
    (∀ granule ∈ granules, granule.toNat < total) ∧
    (granules.length = 1 → 256 ≤ 256 * (last &&& 0x3F).toNat + bytesInLastSector entry) ∧
    256 * (last &&& 0x3F).toNat + bytesInLastSector entry ≤ 256 * (density * SectorsPerGranule + 1)

/-- The chain of an entry is longer than the disk, where that is noticed. -/
def GivenUp (fat : Text) (total : Nat) (entry : Text) : Prop :=
  total < 255 ∧
    ∀ granules last, Chain fat (firstGranule entry) granules last → total + 1 < granules.length

def directory (contents : Text) : List Text :=
  entriesOf contents (NumDirectorySectors * BytesPerSector / DirEntrySize)

/-- The image is not one of an RSDOS disk, by its beginning or its size. -/
def NotRsdos (contents : Text) : Prop :=
  IsSdf1 contents ∨ LooksLikeOs9 contents ∨ contents.length % BytesPerSector ≠ 0 ∨
    contents.length / BytesPerSector < 324 ∨ 2880 < contents.length / BytesPerSector

/-- There is no listing of such an image. -/
def Refused (contents : Text) : Prop :=
  NotRsdos contents ∨ ∃ entry ∈ directory contents, Live entry ∧
    GivenUp (fatOf contents) (totalGranulesOf contents) entry

/-! ### Sizes -/

/-- The bounds on a size are bounds on what is in the last granule. -/
theorem sizeOf_bounds {density granules : Nat} (some : 0 < granules) (last : UInt8) (bytes : Nat)
    (positive : 0 < density) :
    (0 ≤ sizeOf density granules last bytes ∧ sizeOf density granules last bytes ≤
      granules * (density * SectorsPerGranule * BytesPerSector)) ↔
    (granules = 1 → 256 ≤ 256 * (last &&& 0x3F).toNat + bytes) ∧
      256 * (last &&& 0x3F).toNat + bytes ≤ 256 * (density * SectorsPerGranule + 1) := by
  obtain ⟨more, rfl⟩ : ∃ more, granules = more + 1 := ⟨granules - 1, by omega⟩
  rw [sizeOf]
  generalize (last &&& 0x3F).toNat = sectors
  have perGranule : SectorsPerGranule = 9 := rfl
  have perSector : BytesPerSector = 256 := rfl
  rw [perGranule, perSector]
  push_cast
  have front : ((more : Int) + 1 - 1) * density * 9 = (more * density * 9 : Nat) := by
    push_cast
    ring
  have capacity : ((more : Int) + 1) * (density * 9 * 256) =
      ((more * density * 9 : Nat) : Int) * 256 + (density * 9 * 256 : Nat) := by
    push_cast
    ring
  rw [front, capacity]
  by_cases alone : more = 0
  · subst alone
    simp only [Nat.zero_mul, forall_const]
    omega
  · have least : 9 ≤ more * density * 9 := by
      have product : 1 ≤ more * density := Nat.mul_pos (Nat.pos_of_ne_zero alone) positive
      omega
    generalize more * density * 9 = sectorsBefore at least ⊢
    simp only [alone, false_implies, true_and]
    omega

/-! ### One file -/

section

variable {fat : Text} {total density : Nat} {entry : Text}

/-- What a file is made of. -/
theorem parseFile_eq_some_iff {file : FileRec} :
    parseFile fat total density entry = some file ↔ ∃ granules last,
      granuleLoop fat total 256 0 (firstGranule entry) [firstGranule entry] =
        some (granules, last) ∧
      file = ⟨fileName entry, (entry.getD 11 0).toNat, entry.getD 12 0 = 255, granules,
        (last &&& 0x3F).toNat, bytesInLastSector entry,
        sizeOf density granules.length last (bytesInLastSector entry)⟩ := by
  rw [parseFile, Option.map_eq_some_iff]
  constructor
  · rintro ⟨⟨granules, last⟩, looped, rfl⟩
    exact ⟨granules, last, looped, rfl⟩
  · rintro ⟨granules, last, looped, rfl⟩
    exact ⟨(granules, last), looped, rfl⟩

/-- A chain that ends in time makes a file of its granules. -/
theorem granuleLoop_of_short {granules : List UInt8} {last : UInt8}
    (chain : Chain fat (firstGranule entry) granules last) (short : granules.length ≤ total + 1) :
    granuleLoop fat total 256 0 (firstGranule entry) [firstGranule entry] =
      some (granules, last) := by
  have rounds : granules.length ≤ 256 :=
    length_le_of_nodup chain.nodup fun granule _ => granule.toNat_lt
  exact granuleLoop_of_chain chain rounds (by omega) []

theorem parseFile_eq_none_iff :
    parseFile fat total density entry = none ↔ GivenUp fat total entry := by
  rw [parseFile, Option.map_eq_none_iff]
  constructor
  · intro given
    have long : ∀ granules last, Chain fat (firstGranule entry) granules last →
        total + 1 < granules.length := by
      intro granules last chain
      by_contra short
      rw [granuleLoop_of_short chain (Nat.le_of_not_lt short)] at given
      cases given
    refine ⟨?_, long⟩
    by_contra large
    have endless : ∀ granules last, ¬Chain fat (firstGranule entry) granules last := by
      intro granules last chain
      have := long granules last chain
      have := length_le_of_nodup chain.nodup fun granule _ => granule.toNat_lt
      omega
    obtain ⟨granules, last, looped, -⟩ := @granuleLoop_of_endless fat total (firstGranule entry)
      256 0 (by omega) endless [firstGranule entry]
    rw [looped] at given
    cases given
  · rintro ⟨small, long⟩
    refine granuleLoop_eq_none (Nat.zero_le _) (by omega) (fun granules last chain => ?_) _
    have := long granules last chain
    omega

/-- A listed file is safe just when its entry is sound. -/
theorem safeFile_iff {file : FileRec} (positive : 0 < density)
    (parsed : parseFile fat total density entry = some file) :
    SafeFile fat total density file ↔ Sound fat total density entry := by
  obtain ⟨granules, last, looped, rfl⟩ := parseFile_eq_some_iff.mp parsed
  constructor
  · intro safe
    have chain : Chain fat (firstGranule entry) granules last := by
      by_cases short : ∃ granules last, Chain fat (firstGranule entry) granules last ∧
          granules.length ≤ total + 1
      · obtain ⟨granules', last', chain, short⟩ := short
        rw [granuleLoop_of_short chain short] at looped
        cases looped
        exact chain
      · have long : ∀ granules last, Chain fat (firstGranule entry) granules last →
            total + 1 < granules.length := by
          intro granules last chain
          by_contra notLong
          exact short ⟨granules, last, chain, Nat.le_of_not_lt notLong⟩
        have large : ¬total < 255 := by
          intro small
          have none := (@parseFile_eq_none_iff fat total density entry).mpr ⟨small, long⟩
          rw [parsed] at none
          cases none
        have endless : ∀ granules last, ¬Chain fat (firstGranule entry) granules last := by
          intro granules last chain
          have := long granules last chain
          have := length_le_of_nodup chain.nodup fun granule _ => granule.toNat_lt
          omega
        obtain ⟨granules', last', looped', length⟩ :=
          @granuleLoop_of_endless fat total (firstGranule entry) 256 0 (by omega) endless
            [firstGranule entry]
        rw [looped] at looped'
        cases looped'
        have few := length_le_of_nodup safe.noneTwice fun granule _ => granule.toNat_lt
        rw [length, List.length_singleton] at few
        omega
    obtain ⟨rest, shape⟩ := chain.eq_cons
    have some : 0 < granules.length := by
      rw [shape, List.length_cons]
      exact Nat.succ_pos _
    obtain ⟨least, most⟩ :=
      (sizeOf_bounds some last (bytesInLastSector entry) positive).mp safe.sized
    exact ⟨granules, last, chain, safe.below, least, most⟩
  · rintro ⟨granules', last', chain, below, least, most⟩
    have short := length_le_of_nodup chain.nodup below
    rw [granuleLoop_of_short chain (by omega)] at looped
    cases looped
    obtain ⟨final, found, marked, ends⟩ := chain.getLast
    obtain ⟨rest, shape⟩ := chain.eq_cons
    have some : 0 < granules.length := by
      rw [shape, List.length_cons]
      exact Nat.succ_pos _
    exact ⟨chain.nodup, below, ⟨final, found, marked ▸ ends⟩,
      (sizeOf_bounds some last (bytesInLastSector entry) positive).mpr ⟨least, most⟩⟩

/-! ### All files -/

theorem parseFiles_eq_none_iff {entries : List Text} :
    parseFiles fat total density entries = none ↔
      ∃ entry ∈ entries, Live entry ∧ GivenUp fat total entry := by
  induction entries with
  | nil => exact iff_of_false nofun nofun
  | cons entry entries inductionHypothesis =>
    rw [parseFiles, List.exists_mem_cons_iff, ← inductionHypothesis]
    by_cases live : Live entry
    · rw [if_pos live, ← @parseFile_eq_none_iff fat total density entry]
      cases parseFile fat total density entry with
      | none => exact iff_of_true rfl (.inl ⟨live, rfl⟩)
      | some file => cases parseFiles fat total density entries <;> simp
    · rw [if_neg live]
      exact (or_iff_right fun both => live both.1).symm

theorem mem_parseFiles_iff {entries : List Text} {files : List FileRec}
    (parsed : parseFiles fat total density entries = some files) (file : FileRec) :
    file ∈ files ↔
      ∃ entry ∈ entries, Live entry ∧ parseFile fat total density entry = some file := by
  induction entries generalizing files with
  | nil =>
    cases parsed
    exact iff_of_false nofun nofun
  | cons entry entries inductionHypothesis =>
    rw [parseFiles] at parsed
    rw [List.exists_mem_cons_iff]
    by_cases live : Live entry
    · rw [if_pos live] at parsed
      obtain ⟨first, found, parsed⟩ := Option.bind_eq_some_iff.mp parsed
      obtain ⟨rest, foundRest, same⟩ := Option.bind_eq_some_iff.mp parsed
      cases same
      rw [List.mem_cons, inductionHypothesis foundRest, found, Option.some.injEq,
        and_iff_right live]
      exact or_congr_left eq_comm
    · rw [if_neg live] at parsed
      rw [inductionHypothesis parsed]
      exact (or_iff_right fun both => live both.1).symm

end

/-! ### Every image -/

theorem densityOf_pos (numSectors : Nat) : 0 < densityOf numSectors := by
  rw [densityOf]
  split <;> decide

/-- The parse of an image that is one of an RSDOS disk. -/
theorem DiskParse_of_rsdos {contents : Text} (rsdos : ¬NotRsdos contents) :
    DiskParse contents =
      (parseFiles (fatOf contents) (totalGranulesOf contents)
        (densityOf (contents.length / BytesPerSector)) (directory contents)).map fun files =>
          .rsdos ⟨files, freeCount contents, totalGranulesOf contents, numTracksOf contents,
            volumeNameOf contents, osOf contents⟩ := by
  obtain ⟨notSdf1, rsdos⟩ := not_or.mp rsdos
  obtain ⟨notOs9, rsdos⟩ := not_or.mp rsdos
  obtain ⟨whole, rsdos⟩ := not_or.mp rsdos
  obtain ⟨many, few⟩ := not_or.mp rsdos
  have perSector : BytesPerSector = 256 := rfl
  have long : ¬(contents.length % BytesPerSector ≠ 0 ∨ contents.length < 0x108) := by
    rintro (ragged | short)
    · exact whole ragged
    · rw [perSector] at many
      omega
  have sized : ¬(contents.length / BytesPerSector < 324 ∨ 2880 < contents.length / BytesPerSector) :=
    not_or.mpr ⟨many, few⟩
  rw [DiskParse, if_neg notSdf1, if_neg long, if_neg notOs9]
  exact if_neg sized

theorem DiskParse_of_notRsdos {contents : Text} (other : NotRsdos contents) (d : RSDiskRec) :
    DiskParse contents ≠ some (.rsdos d) := by
  rw [DiskParse]
  by_cases sdf1 : IsSdf1 contents
  · rw [if_pos sdf1]
    nofun
  rw [if_neg sdf1]
  split
  · nofun
  rename_i long
  by_cases os9 : LooksLikeOs9 contents
  · rw [if_pos os9]
    nofun
  rw [if_neg os9]
  have sized : contents.length / BytesPerSector < 324 ∨ 2880 < contents.length / BytesPerSector := by
    rcases other with is | is | ragged | sized
    · exact absurd is sdf1
    · exact absurd is os9
    · exact absurd (.inl ragged) long
    · exact sized
  dsimp only
  rw [if_pos sized]
  nofun

/-- A listing is safe just when every entry of it is sound. -/
theorem safe_iff_of_not_refused {contents : Text} (listed : ¬Refused contents) :
    Safe contents ↔ ∀ entry ∈ directory contents, Live entry →
      Sound (fatOf contents) (totalGranulesOf contents)
        (densityOf (contents.length / BytesPerSector)) entry := by
  obtain ⟨rsdos, noneGivenUp⟩ := not_or.mp listed
  have parse := DiskParse_of_rsdos rsdos
  have positive := densityOf_pos (contents.length / BytesPerSector)
  cases parsed : parseFiles (fatOf contents) (totalGranulesOf contents)
      (densityOf (contents.length / BytesPerSector)) (directory contents) with
  | none => exact absurd (parseFiles_eq_none_iff.mp parsed) noneGivenUp
  | some files =>
    rw [parsed, Option.map_some] at parse
    rw [Safe, parse]
    constructor
    · intro safe entry member live
      have each := safe _ rfl
      cases found : parseFile (fatOf contents) (totalGranulesOf contents)
          (densityOf (contents.length / BytesPerSector)) entry with
      | none =>
        exact absurd ⟨entry, member, live, parseFile_eq_none_iff.mp found⟩ noneGivenUp
      | some file =>
        exact (safeFile_iff positive found).mp
          (each file ((mem_parseFiles_iff parsed file).mpr ⟨entry, member, live, found⟩))
    · intro sound d same file member
      cases same
      obtain ⟨entry, inDirectory, live, found⟩ := (mem_parseFiles_iff parsed file).mp member
      exact (safeFile_iff positive found).mpr (sound entry inDirectory live)

/-- The listing of an image is safe just when there is none or every entry of the directory is
sound. -/
theorem safe_iff (contents : Text) :
    Safe contents ↔ Refused contents ∨ ∀ entry ∈ directory contents, Live entry →
      Sound (fatOf contents) (totalGranulesOf contents)
        (densityOf (contents.length / BytesPerSector)) entry := by
  by_cases refused : Refused contents
  · refine iff_of_true (fun d parsed => ?_) (.inl refused)
    rcases refused with other | givenUp
    · exact absurd parsed (DiskParse_of_notRsdos other d)
    · by_cases other : NotRsdos contents
      · exact absurd parsed (DiskParse_of_notRsdos other d)
      · rw [DiskParse_of_rsdos other, parseFiles_eq_none_iff.mpr givenUp] at parsed
        cases parsed
  · rw [or_iff_right refused]
    exact safe_iff_of_not_refused refused

/-! ### A file of less than nothing -/

/-- Every entry of the allocation table is the last of its chain, with no sectors in use, and the
directory has one file, of granule 0 and no bytes. -/
def nothingUsed : Text := List.replicate 78848 0xC0 ++ 65 :: List.replicate 82431 0

theorem length_nothingUsed : nothingUsed.length = 161280 := by
  rw [nothingUsed, List.length_append, List.length_replicate, List.length_cons,
    List.length_replicate]

theorem density_nothingUsed : densityOf (nothingUsed.length / BytesPerSector) = 1 := by
  rw [length_nothingUsed]
  rfl

theorem readAt_nothingUsed {offset count : Nat} (before : offset + count ≤ 78848) :
    readAt offset count nothingUsed = List.replicate count 0xC0 := by
  rw [readAt, nothingUsed, List.drop_append_of_le_length (by rw [List.length_replicate]; omega),
    List.take_append_of_le_length (by rw [List.length_drop, List.length_replicate]; omega),
    List.drop_replicate, List.take_replicate]
  congr 1
  omega

theorem link_nothingUsed (granule : UInt8) : link (fatOf nothingUsed) granule = 0xC0 := by
  have small := granule.toNat_lt
  have fat : fatOf nothingUsed = List.replicate 256 0xC0 := by
    have start : 1 * FatLSN * BytesPerSector = 78592 := by decide
    have sector : BytesPerSector = 256 := rfl
    have block : readAt 78592 256 nothingUsed = List.replicate 256 0xC0 :=
      readAt_nothingUsed (by omega)
    rw [fatOf, fromFat, density_nothingUsed, start, sector, ← block, readAt]
  rw [link, fat, List.getD_eq_getElem?_getD, List.getElem?_replicate, if_pos small]
  rfl

theorem chain_nothingUsed (granule : UInt8) : Chain (fatOf nothingUsed) granule [granule] 0xC0 := by
  have chain : Chain (fatOf nothingUsed) granule [granule] (link (fatOf nothingUsed) granule) :=
    .last granule (by rw [link_nothingUsed]; decide)
  rwa [link_nothingUsed] at chain

theorem not_refused_nothingUsed : ¬Refused nothingUsed := by
  rintro ((sdf1 | os9 | ragged | few | many) | ⟨entry, -, -, -, long⟩)
  · obtain ⟨rest, same⟩ := sdf1
    have first := congrArg (readAt 0 1) same
    rw [readAt_nothingUsed (by decide)] at first
    cases first
  · have first := os9.1
    rw [readAt_nothingUsed (by decide)] at first
    cases first
  · rw [length_nothingUsed] at ragged
    exact ragged rfl
  · rw [length_nothingUsed] at few
    revert few
    decide
  · rw [length_nothingUsed] at many
    revert many
    decide
  · have short := long _ _ (chain_nothingUsed _)
    rw [List.length_singleton] at short
    omega

/-- The file is listed with a size of -256. -/
theorem not_safe_nothingUsed : ¬Safe nothingUsed := by
  intro safe
  have sound := (safe_iff_of_not_refused not_refused_nothingUsed).mp safe
  have entry : readAt 78848 32 nothingUsed = 65 :: List.replicate 31 0 := by
    have front : nothingUsed.drop 78848 = 65 :: List.replicate 82431 0 :=
      List.drop_left' List.length_replicate
    rw [readAt, front, List.take_succ_cons, List.take_replicate, Nat.min_eq_left (by decide)]
  have member : 65 :: List.replicate 31 0 ∈ directory nothingUsed := by
    rw [directory, entriesOf, density_nothingUsed, ← entry]
    exact List.mem_map.mpr ⟨0, List.mem_range.mpr (by decide), rfl⟩
  obtain ⟨granules, last, chain, -, least, -⟩ := sound _ member ⟨by decide, by decide⟩
  obtain ⟨rfl, rfl⟩ := chain.unique (chain_nothingUsed _)
  exact absurd (least rfl) (by decide)

end Frobio.Rsdos
