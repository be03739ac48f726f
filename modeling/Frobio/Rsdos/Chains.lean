/-
This file shows for which images the files that `DiskParse` lists have sound chains of
granules. The allocation table is a function from bytes to bytes, so a chain either ends at
an entry of 0xC0 or more, and then repeats nothing, or runs in circles for ever.

The loop over a chain checks neither its first granule nor any other against the number of
granules, and gives up only after as many rounds as the disk has granules. There are 256
rounds, so with 255 granules or more it does not give up.
-/

import Frobio.Rsdos.Disk

namespace Frobio.Rsdos

/-! ### Chains -/

/-- The granules from one on, and the last entry. -/
inductive Chain (fat : Text) : UInt8 → List UInt8 → UInt8 → Prop
  | last (granule : UInt8) : ¬link fat granule < 0xC0 →
      Chain fat granule [granule] (link fat granule)
  | next {granule last : UInt8} {granules : List UInt8} : link fat granule < 0xC0 →
      Chain fat (link fat granule) granules last → Chain fat granule (granule :: granules) last

variable {fat : Text}

theorem Chain.eq_cons {granule last : UInt8} {granules : List UInt8}
    (chain : Chain fat granule granules last) : ∃ rest, granules = granule :: rest := by
  cases chain with
  | last => exact ⟨[], rfl⟩
  | next => exact ⟨_, rfl⟩

/-- The table decides the chain. -/
theorem Chain.unique {granule last last' : UInt8} {granules granules' : List UInt8}
    (chain : Chain fat granule granules last) (chain' : Chain fat granule granules' last') :
    granules = granules' ∧ last = last' := by
  induction chain generalizing granules' with
  | last granule ends =>
    cases chain' with
    | last => exact ⟨rfl, rfl⟩
    | next goes => exact absurd goes ends
  | next goes _ inductionHypothesis =>
    cases chain' with
    | last _ ends => exact absurd goes ends
    | next _ rest =>
      obtain ⟨same, lastSame⟩ := inductionHypothesis rest
      exact ⟨congrArg _ same, lastSame⟩

/-- From each granule of a chain there is a chain that is no longer. -/
theorem Chain.from_mem {granule last : UInt8} {granules : List UInt8}
    (chain : Chain fat granule granules last) {other : UInt8} (member : other ∈ granules) :
    ∃ granules', Chain fat other granules' last ∧ granules'.length ≤ granules.length := by
  induction chain with
  | last granule ends =>
    rw [List.mem_singleton.mp member]
    exact ⟨_, .last granule ends, le_refl _⟩
  | next goes rest inductionHypothesis =>
    rcases List.mem_cons.mp member with rfl | later
    · exact ⟨_, .next goes rest, le_refl _⟩
    · obtain ⟨granules', chain', shorter⟩ := inductionHypothesis later
      exact ⟨granules', chain', shorter.trans (Nat.le_succ _)⟩

theorem Chain.nodup {granule last : UInt8} {granules : List UInt8}
    (chain : Chain fat granule granules last) : granules.Nodup := by
  induction chain with
  | last => exact List.nodup_singleton _
  | next goes rest inductionHypothesis =>
    refine List.nodup_cons.mpr ⟨fun again => ?_, inductionHypothesis⟩
    obtain ⟨granules', chain', shorter⟩ := rest.from_mem again
    have same := (Chain.unique (.next goes rest) chain').1
    rw [← same, List.length_cons] at shorter
    exact Nat.not_succ_le_self _ shorter

theorem Chain.getLast {granule last : UInt8} {granules : List UInt8}
    (chain : Chain fat granule granules last) :
    ∃ final, granules.getLast? = some final ∧ link fat final = last ∧ ¬last < 0xC0 := by
  induction chain with
  | last granule ends => exact ⟨granule, rfl, rfl, ends⟩
  | next goes rest inductionHypothesis =>
    obtain ⟨final, found, ends⟩ := inductionHypothesis
    obtain ⟨more, rfl⟩ := rest.eq_cons
    exact ⟨final, by rw [List.getLast?_cons_cons]; exact found, ends⟩

theorem length_le_of_nodup {granules : List UInt8} (nodup : granules.Nodup) {bound : Nat}
    (below : ∀ granule ∈ granules, granule.toNat < bound) : granules.length ≤ bound := by
  have numbers : (granules.map UInt8.toNat).Nodup :=
    nodup.map fun _ _ same => UInt8.toNat.inj same
  have inside : granules.map UInt8.toNat ⊆ List.range bound := by
    intro number member
    obtain ⟨granule, inGranules, rfl⟩ := List.mem_map.mp member
    exact List.mem_range.mpr (below granule inGranules)
  have short := (numbers.subperm inside).length_le
  rwa [List.length_map, List.length_range] at short

/-! ### The loop -/

variable {total : Nat}

/-- A chain that ends in time is found. -/
theorem granuleLoop_of_chain {granule last : UInt8} {granules : List UInt8}
    (chain : Chain fat granule granules last) {rounds j : Nat} (inRounds : granules.length ≤ rounds)
    (inTime : j + granules.length ≤ total + 1) (front : List UInt8) :
    granuleLoop fat total rounds j granule (front ++ [granule]) = some (front ++ granules, last) := by
  induction chain generalizing rounds j front with
  | last granule ends =>
    cases rounds with
    | zero => cases inRounds
    | succ rounds =>
      have early : ¬total < j := by
        rw [List.length_singleton] at inTime
        omega
      rw [granuleLoop, if_neg early]
      exact if_neg ends
  | @next granule last granules goes rest inductionHypothesis =>
    rw [List.length_cons] at inRounds inTime
    obtain ⟨rounds, rfl⟩ : ∃ fewer, rounds = fewer + 1 := ⟨rounds - 1, by omega⟩
    rw [granuleLoop, if_neg (show ¬total < j by omega)]
    dsimp only
    rw [if_pos goes, inductionHypothesis (by omega) (by omega) (front ++ [granule]),
      List.append_assoc]
    rfl

/-- A chain that does not end in time is given up, if there are rounds enough. -/
theorem granuleLoop_eq_none {granule : UInt8} {rounds j : Nat} (begun : j ≤ total + 1)
    (enough : total + 1 < j + rounds)
    (endless : ∀ granules last, Chain fat granule granules last → total + 1 < j + granules.length)
    (found : List UInt8) : granuleLoop fat total rounds j granule found = none := by
  induction rounds generalizing j granule found with
  | zero => omega
  | succ rounds inductionHypothesis =>
    rw [granuleLoop]
    by_cases late : total < j
    · exact if_pos late
    · rw [if_neg late]
      have goes : link fat granule < 0xC0 := by
        by_contra ends
        have alone := endless _ _ (.last granule ends)
        rw [List.length_singleton] at alone
        omega
      dsimp only
      rw [if_pos goes]
      refine inductionHypothesis (by omega) (by omega) (fun granules last chain => ?_) _
      have longer := endless _ _ (.next goes chain)
      rw [List.length_cons] at longer
      omega

/-- Without an end and without a limit the loop gives as many granules as it has rounds. -/
theorem granuleLoop_of_endless {granule : UInt8} {rounds j : Nat} (unlimited : j + rounds ≤ total + 1)
    (endless : ∀ granules last, ¬Chain fat granule granules last) (found : List UInt8) :
    ∃ granules last, granuleLoop fat total rounds j granule found = some (granules, last) ∧
      granules.length = found.length + rounds := by
  induction rounds generalizing j granule found with
  | zero => exact ⟨found, granule, rfl, rfl⟩
  | succ rounds inductionHypothesis =>
    have goes : link fat granule < 0xC0 := by
      by_contra ends
      exact endless _ _ (.last granule ends)
    rw [granuleLoop, if_neg (show ¬total < j by omega)]
    dsimp only
    rw [if_pos goes]
    obtain ⟨granules, last, looped, length⟩ := inductionHypothesis (j := j + 1)
      (by omega) (fun granules last chain => endless _ _ (.next goes chain))
      (found ++ [link fat granule])
    refine ⟨granules, last, looped, ?_⟩
    rw [length, List.length_append, List.length_singleton]
    omega

end Frobio.Rsdos
