/-
This file compares the number of free granules that `DiskParse` reports of a disk of 35
tracks with what its files leave.

The allocation table has an entry for each of 68 granules. The granules of the directory's
track are not among them, so the entries 34 and 35, which the loop skips, are of granules
like all others, and the entries 68 and 69, which it counts, are of none.
-/

import Frobio.HdbDos.Drives
import Frobio.Rsdos.Safety

namespace Frobio.Rsdos

open Coms Positional

/-! ### Well-formed disks -/

/-- The granules of 34 tracks, two for a track. -/
def dataGranules : Nat := 68

/-- The directory has nine sectors. -/
def wholeDirectory (contents : Text) : List Text :=
  entriesOf contents (9 * BytesPerSector / DirEntrySize)

/-- A disk of 35 tracks with the chains of the files of its directory. Each of the granules that
no file has is marked as free or as in use. -/
structure Layout (contents : Text) where
  size : contents.length = FloppySize35
  chains : List (List UInt8)
  listed : List.Forall₂
    (fun entry granules => ∃ last, Chain (fatOf contents) (firstGranule entry) granules last ∧
      0xC1 ≤ last ∧ last ≤ 0xC9)
    ((wholeDirectory contents).filter Live) chains
  onDisk : ∀ granules ∈ chains, ∀ granule ∈ granules, granule.toNat < dataGranules
  apart : chains.Pairwise List.Disjoint

/-- The granules of the files. -/
def Layout.used {contents : Text} (layout : Layout contents) : List Nat :=
  layout.chains.flatten.map UInt8.toNat

def MarkedFree (contents : Text) (i : Nat) : Bool := (fromFat contents).getD i 0 == 255

/-- The granules that the table marks as free. -/
def freeInTable (contents : Text) : List Nat :=
  (List.range dataGranules).filter (MarkedFree contents)

/-- What is reported as free is what the files leave. It counts each granule of the table that is
free once, and nothing outside of the table. -/
def FreeIsRight {contents : Text} (layout : Layout contents) : Prop :=
  ∃ d, DiskParse contents = some (.rsdos d) ∧
    d.freeGranules = (countedFree contents).length ∧
    d.freeGranules + layout.used.length = dataGranules ∧
    (countedFree contents).Perm (freeInTable contents)

/-- The granules that are marked as in use and are no file's. -/
def Layout.orphans {contents : Text} (layout : Layout contents) : Nat :=
  (List.range dataGranules).countP fun i => !MarkedFree contents i && !layout.used.contains i

/-! ### Counting -/

variable {contents : Text}

theorem totalGranulesOf_of_size (size : contents.length = FloppySize35) :
    totalGranulesOf contents = 70 := by
  rw [totalGranulesOf, numTracksOf, size]
  rfl

theorem mem_countedFree (size : contents.length = FloppySize35) {i : Nat} :
    i ∈ countedFree contents ↔ i < 70 ∧ i / 2 ≠ 17 ∧ MarkedFree contents i = true := by
  rw [countedFree, totalGranulesOf_of_size size, List.mem_filter, List.mem_range,
    decide_eq_true_eq, MarkedFree, beq_iff_eq]
  rfl

theorem mem_freeInTable {i : Nat} :
    i ∈ freeInTable contents ↔ i < 68 ∧ MarkedFree contents i = true := by
  rw [freeInTable, List.mem_filter, List.mem_range]
  rfl

/-- The two granules that are skipped and the two entries beyond the table make the difference. -/
theorem countedFree_perm_iff (size : contents.length = FloppySize35) :
    (countedFree contents).Perm (freeInTable contents) ↔
      ∀ i ∈ [34, 35, 68, 69], MarkedFree contents i = false := by
  have once : (countedFree contents).Nodup := List.nodup_range.filter _
  have distinct : (freeInTable contents).Nodup := List.nodup_range.filter _
  rw [List.perm_ext_iff_of_nodup once distinct]
  constructor
  · intro same i member
    have both := same i
    rw [mem_countedFree size, mem_freeInTable] at both
    refine Bool.eq_false_iff.mpr fun marked => ?_
    simp only [List.mem_cons, List.not_mem_nil, or_false] at member
    rw [and_iff_left marked, and_iff_left marked] at both
    omega
  · intro none i
    rw [mem_countedFree size, mem_freeInTable, ← and_assoc]
    refine and_congr_left fun marked => ?_
    have apart : i ∉ [34, 35, 68, 69] := fun member => by
      rw [none i member] at marked
      cases marked
    simp only [List.mem_cons, List.not_mem_nil, or_false, not_or] at apart
    omega

variable (layout : Layout contents)

/-- A file of the directory has its chain. -/
theorem Layout.chain_of_mem {entry : Text} (member : entry ∈ wholeDirectory contents)
    (live : Live entry) : ∃ granules ∈ layout.chains, ∃ last,
      Chain (fatOf contents) (firstGranule entry) granules last ∧ last ≤ 0xC9 := by
  have filtered : entry ∈ (wholeDirectory contents).filter Live :=
    List.mem_filter.mpr ⟨member, decide_eq_true live⟩
  obtain ⟨nth, within, rfl⟩ := List.getElem_of_mem filtered
  have same := layout.listed.length_eq
  obtain ⟨last, chain, -, marked⟩ :=
    (List.forall₂_iff_get.mp layout.listed).2 nth within (same ▸ within)
  exact ⟨_, List.getElem_mem _, last, chain, marked⟩

/-- A chain is that of a file of the directory. -/
theorem Layout.entry_of_mem {granules : List UInt8} (member : granules ∈ layout.chains) :
    ∃ entry last, Chain (fatOf contents) (firstGranule entry) granules last ∧ last ≤ 0xC9 := by
  obtain ⟨nth, within, rfl⟩ := List.getElem_of_mem member
  have same := layout.listed.length_eq
  obtain ⟨last, chain, -, marked⟩ :=
    (List.forall₂_iff_get.mp layout.listed).2 nth (same ▸ within) within
  exact ⟨_, last, chain, marked⟩

theorem Layout.nodup_used : layout.used.Nodup := by
  have each : ∀ granules ∈ layout.chains, granules.Nodup := by
    intro granules member
    obtain ⟨entry, last, chain, -⟩ := layout.entry_of_mem member
    exact chain.nodup
  have together : layout.chains.flatten.Nodup := List.nodup_flatten.mpr ⟨each, layout.apart⟩
  exact together.map fun _ _ same => UInt8.toNat.inj same

theorem Layout.used_lt {i : Nat} (member : i ∈ layout.used) : i < dataGranules := by
  obtain ⟨granule, inside, rfl⟩ := List.mem_map.mp member
  obtain ⟨granules, inChains, inside⟩ := List.mem_flatten.mp inside
  exact layout.onDisk granules inChains granule inside

theorem link_ne_free_of_chain {fat : Text} {granule last : UInt8} {granules : List UInt8}
    (chain : Chain fat granule granules last) (marked : last ≤ 0xC9) {other : UInt8}
    (member : other ∈ granules) : link fat other ≠ 255 := by
  induction chain with
  | last granule ends =>
    rw [List.mem_singleton.mp member]
    rintro free
    rw [free] at marked
    revert marked
    decide
  | next goes _ inductionHypothesis =>
    rcases List.mem_cons.mp member with rfl | later
    · intro free
      rw [free] at goes
      revert goes
      decide
    · exact inductionHypothesis marked later

/-- What a file has is not marked as free. -/
theorem Layout.not_free_of_used {i : Nat} (member : i ∈ layout.used) :
    MarkedFree contents i = false := by
  obtain ⟨granule, inside, rfl⟩ := List.mem_map.mp member
  obtain ⟨granules, inChains, inside⟩ := List.mem_flatten.mp inside
  obtain ⟨entry, last, chain, marked⟩ := layout.entry_of_mem inChains
  have notFree := link_ne_free_of_chain chain marked inside
  have held : link (fatOf contents) granule = (fromFat contents).getD granule.toNat 0 := by
    rw [link, fatOf, List.getD_eq_getElem?_getD, List.getElem?_take,
      if_pos (show granule.toNat < BytesPerSector from granule.toNat_lt),
      List.getD_eq_getElem?_getD]
  rw [held] at notFree
  exact beq_eq_false_iff_ne.mpr notFree

/-- Each granule of the table is free, or a file's, or in use and no file's. -/
theorem Layout.partition :
    (freeInTable contents).length + layout.used.length + layout.orphans = dataGranules := by
  have ours : (List.range dataGranules).countP (fun i => layout.used.contains i) =
      layout.used.length := by
    rw [List.countP_eq_length_filter]
    refine List.Perm.length_eq ((List.perm_ext_iff_of_nodup
      (List.nodup_range.filter _) layout.nodup_used).mpr fun i => ?_)
    rw [List.mem_filter, List.mem_range, List.contains_iff_mem]
    exact and_iff_right_of_imp layout.used_lt
  have rest : (List.range dataGranules).countP (fun i => !MarkedFree contents i) =
      layout.used.length + layout.orphans := by
    rw [← ours, orphans, List.countP_eq_countP_filter_add _ _ fun i => layout.used.contains i,
      List.countP_filter, List.countP_filter]
    congr 1
    refine List.countP_congr fun i _ => ?_
    by_cases inside : i ∈ layout.used
    · rw [layout.not_free_of_used inside]
      rfl
    · rw [List.contains_iff_mem.not.mpr inside |> Bool.eq_false_iff.mpr, Bool.and_false]
  have whole := List.length_eq_countP_add_countP (MarkedFree contents) (l := List.range dataGranules)
  rw [List.length_range] at whole
  have others : ((List.range dataGranules).countP fun i => decide ¬MarkedFree contents i = true) =
      (List.range dataGranules).countP fun i => !MarkedFree contents i := by
    refine List.countP_congr fun i _ => ?_
    cases MarkedFree contents i <;> decide
  rw [others, rest] at whole
  rw [freeInTable, ← List.countP_eq_length_filter, Nat.add_assoc]
  exact whole.symm

/-! ### The report -/

include layout in
/-- A well-formed disk is listed, if it does not begin like another one. -/
theorem Layout.not_refused (notSdf1 : ¬IsSdf1 contents) (notOs9 : ¬LooksLikeOs9 contents) :
    ¬Refused contents := by
  rintro ((sdf1 | os9 | ragged | few | many) | ⟨entry, member, live, -, long⟩)
  · exact notSdf1 sdf1
  · exact notOs9 os9
  · rw [layout.size] at ragged
    exact ragged rfl
  · rw [layout.size] at few
    revert few
    decide
  · rw [layout.size] at many
    revert many
    decide
  · have inWhole : entry ∈ wholeDirectory contents := by
      obtain ⟨nth, inside, rfl⟩ := List.mem_map.mp member
      have inside : nth < 64 := List.mem_range.mp inside
      exact List.mem_map.mpr ⟨nth, List.mem_range.mpr (show nth < 72 by omega), rfl⟩
    obtain ⟨granules, inChains, last, chain, -⟩ := layout.chain_of_mem inWhole live
    have short := length_le_of_nodup chain.nodup (layout.onDisk granules inChains)
    have tooLong := long granules last chain
    rw [totalGranulesOf_of_size layout.size] at tooLong
    have table : dataGranules = 68 := rfl
    omega

/-- The report is right just when the image does not begin like another disk, none of the two
granules that are skipped and of the two bytes behind the table is free, and what is in use is a
file's. -/
theorem freeIsRight_iff :
    FreeIsRight layout ↔ ¬IsSdf1 contents ∧ ¬LooksLikeOs9 contents ∧
      (∀ i ∈ [34, 35, 68, 69], MarkedFree contents i = false) ∧ layout.orphans = 0 := by
  have counted := countedFree_perm_iff layout.size
  have partitioned := layout.partition
  by_cases other : IsSdf1 contents ∨ LooksLikeOs9 contents
  · have notRsdos : NotRsdos contents := by
      rcases other with sdf1 | os9
      · exact .inl sdf1
      · exact .inr (.inl os9)
    refine iff_of_false ?_ fun ⟨notSdf1, notOs9, _⟩ => other.elim notSdf1 notOs9
    rintro ⟨d, parsed, -⟩
    exact DiskParse_of_notRsdos notRsdos d parsed
  · obtain ⟨notSdf1, notOs9⟩ := not_or.mp other
    obtain ⟨rsdos, noneGivenUp⟩ := not_or.mp (layout.not_refused notSdf1 notOs9)
    have parse := DiskParse_of_rsdos rsdos
    rw [and_iff_right notSdf1, and_iff_right notOs9, ← counted]
    cases parsed : parseFiles (fatOf contents) (totalGranulesOf contents)
        (densityOf (contents.length / BytesPerSector)) (directory contents) with
    | none => exact absurd (parseFiles_eq_none_iff.mp parsed) noneGivenUp
    | some files =>
      rw [parsed, Option.map_some] at parse
      rw [FreeIsRight, parse]
      constructor
      · rintro ⟨d, same, reported, right, once⟩
        have length := once.length_eq
        exact ⟨once, by omega⟩
      · rintro ⟨once, none⟩
        have length := once.length_eq
        refine ⟨_, rfl, rfl, ?_, once⟩
        show (countedFree contents).length + layout.used.length = dataGranules
        omega

/-! ### An empty disk -/

theorem getD_empty {i : Nat} (inside : i < 161280) :
    HdbDos.emptyDecbInitializedDiskImage.getD i 0 =
      if i < 0x13200 ∨ 0x13300 ≤ i ∧ i < 0x13344 ∨ 0x13400 ≤ i then 0xFF else 0 := by
  rw [HdbDos.emptyDecbInitializedDiskImage, List.getD_eq_getElem?_getD, List.getElem?_map,
    List.getElem?_range inside]
  rfl

theorem length_empty : HdbDos.emptyDecbInitializedDiskImage.length = FloppySize35 := by
  rw [HdbDos.emptyDecbInitializedDiskImage, List.length_map, List.length_range]
  rfl

theorem density_empty :
    densityOf (HdbDos.emptyDecbInitializedDiskImage.length / BytesPerSector) = 1 := by
  rw [length_empty]
  rfl

/-- No entry of the directory of an empty disk is live. -/
def emptyLayout : Layout HdbDos.emptyDecbInitializedDiskImage where
  size := length_empty
  chains := []
  listed := by
    have none : (wholeDirectory HdbDos.emptyDecbInitializedDiskImage).filter Live = [] := by
      refine List.filter_eq_nil_iff.mpr fun entry member => ?_
      obtain ⟨nth, inside, rfl⟩ := List.mem_map.mp member
      have inside : nth < 72 := List.mem_range.mp inside
      have start : 1 * FirstDirectoryLSN * BytesPerSector + DirEntrySize * nth = 78848 + 32 * nth := by
        have first : 1 * FirstDirectoryLSN * BytesPerSector = 78848 := by decide
        have size : DirEntrySize = 32 := rfl
        rw [first, size]
      rw [density_empty, start, decide_eq_true_iff]
      rintro ⟨-, used⟩
      refine used ?_
      rw [getD_readAt, if_pos (by decide), getD_empty (by omega), if_pos (by omega)]
    rw [none]
    exact .nil
  onDisk := nofun
  apart := .nil

/-- Two granules of an empty disk are not counted. -/
theorem not_freeIsRight_empty : ¬FreeIsRight emptyLayout := by
  rintro ⟨-, -, -, -, once⟩
  have skipped := (countedFree_perm_iff length_empty).mp once 34 List.mem_cons_self
  have start : 1 * FatLSN * BytesPerSector = 78592 := by decide
  rw [MarkedFree, fromFat, density_empty, start, List.getD_eq_getElem?_getD, List.getElem?_drop,
    ← List.getD_eq_getElem?_getD, getD_empty (by omega), if_pos (by omega)] at skipped
  cases skipped

end Frobio.Rsdos
