/-
This file is about heaps of `froblib/malloc.c` whose blocks tile the memory from `heap_min`
to `heap_here`, and about what the writes of `Malloc` and `Free` change in it.

The words are read as numbers here. That is right as long as no block goes over the last
address.
-/

import Frobio.Lib.Arena
import Frobio.Froblib.Honesty

namespace Frobio.Froblib

open Arena

/-! ### Buckets -/

def capOf (b : Fin NBUCKETS) : Nat := 8 * 2 ^ b.val

theorem capOf_bounds (b : Fin NBUCKETS) : 8 ≤ capOf b ∧ capOf b ≤ 16384 := by
  have all : ∀ b : Fin NBUCKETS, 8 ≤ capOf b ∧ capOf b ≤ 16384 := by decide
  exact all b

/-- The bucket that `which_bucket` finds. -/
def bucketOf (n : Word) : Fin NBUCKETS :=
  ⟨(whichBucketLoop n.toInt16 NBUCKETS 0 SMALLEST_BUCKET).1 % NBUCKETS, Nat.mod_lt _ (by decide)⟩

/-- A bucket is found again by its capacity. -/
theorem bucketOf_capOf (b : Fin NBUCKETS) : bucketOf (UInt16.ofNat (capOf b)) = b := by
  have all : ∀ b : Fin NBUCKETS, bucketOf (UInt16.ofNat (capOf b)) = b := by decide +kernel
  exact all b

/-- The capacity doubles with the bucket. -/
theorem whichBucketLoop_capacity {n cap : Int16} {rounds b : Nat} (tables : b + rounds = NBUCKETS)
    (doubled : cap.toInt = 8 * 2 ^ b) (found : (whichBucketLoop n rounds b cap).1 < NBUCKETS) :
    (whichBucketLoop n rounds b cap).2.toInt = 8 * 2 ^ (whichBucketLoop n rounds b cap).1 := by
  induction rounds generalizing b cap with
  | zero => exact absurd found (Nat.not_lt.mpr (Nat.le_of_eq tables.symm))
  | succ rounds inductionHypothesis =>
    have buckets : NBUCKETS = 12 := rfl
    rw [whichBucketLoop] at found ⊢
    by_cases enough : n ≤ cap
    · rw [if_pos enough]
      exact doubled
    · rw [if_neg enough] at found ⊢
      by_cases last : b = 11
      · have none : rounds = 0 := by omega
        rw [none, whichBucketLoop] at found
        exact absurd found (Nat.not_lt.mpr (by omega))
      · have least : (1 : Int) ≤ 2 ^ b := one_le_pow₀ (by decide)
        have most : (2 : Int) ^ b ≤ 2 ^ 10 := pow_le_pow_right₀ (by decide) (by omega)
        refine inductionHypothesis (by omega) ?_ found
        rw [toInt_double (by omega) (by omega), pow_succ]
        omega

theorem which_bucket_spec {n : Word} (small : n.toNat ≤ 16384) :
    ∃ cap, (∀ heap, which_bucket heap n.toInt16 = (heap, (bucketOf n).val, cap)) ∧
      cap.toUInt16.toNat = capOf (bucketOf n) ∧ n.toNat ≤ capOf (bucketOf n) := by
  obtain ⟨b, cap, inTable, found, enough, -⟩ := which_bucket_of_le (n := n) small
  have loop : whichBucketLoop n.toInt16 NBUCKETS 0 SMALLEST_BUCKET = (b, cap) := by
    have once := found idleHeap
    rw [which_bucket] at once
    exact Prod.ext (congrArg (fun r => r.2.1) once) (congrArg (fun r => r.2.2) once)
  have bucket : (bucketOf n).val = b := by
    show (whichBucketLoop n.toInt16 NBUCKETS 0 SMALLEST_BUCKET).1 % NBUCKETS = b
    rw [loop]
    exact Nat.mod_eq_of_lt inTable
  have value := @whichBucketLoop_capacity n.toInt16 SMALLEST_BUCKET NBUCKETS 0 rfl (by decide)
  rw [loop] at value
  have value := value inTable
  have value : cap.toInt = 8 * 2 ^ b := value
  have positive : (0 : Int) ≤ 2 ^ b := pow_nonneg (by decide) b
  have word := @toNat_toUInt16 cap (by omega)
  have capacity : cap.toUInt16.toNat = capOf (bucketOf n) := by
    rw [capOf, bucket]
    refine Int.ofNat.inj ?_
    show (cap.toUInt16.toNat : Int) = ((8 * 2 ^ b : Nat) : Int)
    rw [word, value]
    push_cast
    rfl
  refine ⟨cap, fun heap => ?_, capacity, ?_⟩
  · rw [found heap, bucket]
  · rw [← capacity]
    exact enough

/-! ### Bytes and words -/

def byteAt (ram : Ram) (a : Nat) : UInt8 := ram (UInt16.ofNat a)

def wordAt (ram : Ram) (a : Nat) : Nat := (byteAt ram a).toNat * 256 + (byteAt ram (a + 1)).toNat

section

variable {ram : Ram} {a : Nat} {address : Word}

theorem toNat_ofNat {a : Nat} (small : a < 65536) : (UInt16.ofNat a).toNat = a := by
  rw [UInt16.toNat_ofNat']
  exact Nat.mod_eq_of_lt small

theorem toNat_add (address offset : Word) (small : address.toNat + offset.toNat < 65536) :
    (address + offset).toNat = address.toNat + offset.toNat := by
  rw [UInt16.toNat_add]
  exact Nat.mod_eq_of_lt small

theorem byteAt_toNat (ram : Ram) (address : Word) : byteAt ram address.toNat = ram address :=
  congrArg ram UInt16.ofNat_toNat

theorem getWord_toNat (ram : Ram) (small : address.toNat + 1 < 65536) :
    (getWord ram address).toNat = wordAt ram address.toNat := by
  have next : byteAt ram (address.toNat + 1) = ram (address + 1) := by
    rw [← byteAt_toNat ram (address + 1), toNat_add address 1 small]
    rfl
  have high := (ram address).toNat_lt
  have low := (ram (address + 1)).toNat_lt
  rw [getWord, wordAt, next, byteAt_toNat, UInt16.toNat_ofNat']
  omega

theorem putByte_at (byte : UInt8) (small : a < 65536) :
    byteAt (putByte ram address byte) a = if a = address.toNat then byte else byteAt ram a := by
  rw [byteAt, putByte, Function.update_apply]
  refine if_congr ⟨fun same => ?_, fun same => ?_⟩ rfl rfl
  · rw [← same, toNat_ofNat small]
  · rw [same]
    exact UInt16.ofNat_toNat

theorem putWord_at_of_outside (word : Word) (small : a < 65536) (fits : address.toNat + 1 < 65536)
    (outside : a < address.toNat ∨ address.toNat + 2 ≤ a) :
    byteAt (putWord ram address word) a = byteAt ram a := by
  have next : (address + 1).toNat = address.toNat + 1 := toNat_add address 1 fits
  rw [putWord, putByte_at _ small, if_neg (by omega), putByte_at _ small, if_neg (by omega)]

theorem wordAt_putWord (ram : Ram) (word : Word) (fits : address.toNat + 1 < 65536) :
    wordAt (putWord ram address word) address.toNat = word.toNat := by
  rw [← getWord_toNat _ fits, getWord_putWord]

theorem clear_at {count : Word} (small : a < 65536) (fits : address.toNat + count.toNat ≤ 65536) :
    byteAt (clear ram address count) a =
      if address.toNat ≤ a ∧ a < address.toNat + count.toNat then 0 else byteAt ram a := by
  have below := address.toNat_lt
  rw [byteAt, clear]
  refine if_congr ?_ rfl rfl
  rw [UInt16.lt_iff_toNat_lt, UInt16.toNat_sub, toNat_ofNat small]
  omega

theorem wordAt_congr {first second : Ram} {a : Nat} (high : byteAt first a = byteAt second a)
    (low : byteAt first (a + 1) = byteAt second (a + 1)) : wordAt first a = wordAt second a := by
  rw [wordAt, wordAt, high, low]

end

/-! ### Blocks -/

/-- What is read where a block is. The capacity is not in the header of a block that is free, so
the buckets are remembered. -/
def view (ram : Ram) (buckets : Nat → Fin NBUCKETS) : View (Fin NBUCKETS) where
  size c := headSize.toNat + capOf (buckets c)
  next c := wordAt ram (c + 1)
  kind := buckets

def heads (heap : Heap) (b : Fin NBUCKETS) : Nat := (heap.buck_freelist b).toNat

theorem heads_update (freelist : Fin NBUCKETS → Word) (b : Fin NBUCKETS) (h : Word) :
    (fun k => (Function.update freelist b h k).toNat) =
      Function.update (fun k => (freelist k).toNat) b h.toNat :=
  Function.comp_update UInt16.toNat freelist b h

theorem toNat_sub_headSize {p : Word} {c : Nat} (place : p.toNat = c + headSize.toNat) :
    (p - headSize).toNat = c := by
  have header : headSize.toNat = 6 := rfl
  have below := p.toNat_lt
  rw [UInt16.toNat_sub, place, header]
  omega

/-- The capacity of a block is the second word of its header. -/
theorem capacity_toNat {heap : Heap} {p : Word} {c : Nat} (place : p.toNat = c + headSize.toNat)
    (small : c + 4 < 65536) : (capacity heap p).toNat = wordAt heap.ram (c + 3) := by
  have head := toNat_sub_headSize place
  have three : (3 : Word).toNat = 3 := rfl
  have third : (p - headSize + 3).toNat = c + 3 := by
    rw [toNat_add _ _ (by omega), head, three]
  rw [capacity, getWord_toNat _ (by omega), third]

/-- Memory changes in the block alone. -/
def OnlyIn (buckets : Nat → Fin NBUCKETS) (ram ram' : Ram) (c : Nat) : Prop :=
  ∀ a < 65536, a < c ∨ c + (headSize.toNat + capOf (buckets c)) ≤ a → byteAt ram' a = byteAt ram a

theorem OnlyIn.byteAt_of_ne {buckets : Nat → Fin NBUCKETS} {ram ram' : Ram} {c d : Nat}
    {chunks : List Nat} {first last : Nat} (only : OnlyIn buckets ram ram' c)
    (tiles : Tiles (view ram buckets).size first chunks last) (bounded : last ≤ 65536)
    (changed : c ∈ chunks) (member : d ∈ chunks) (differ : d ≠ c) {i : Nat}
    (inside : i < headSize.toNat + capOf (buckets d)) :
    byteAt ram' (d + i) = byteAt ram (d + i) := by
  have apart : d + (headSize.toNat + capOf (buckets d)) ≤ c ∨
      c + (headSize.toNat + capOf (buckets c)) ≤ d := tiles.apart member changed differ
  have within : first ≤ d ∧ 0 < headSize.toNat + capOf (buckets d) ∧
      d + (headSize.toNat + capOf (buckets d)) ≤ last := tiles.within member
  exact only _ (by omega) (by omega)

/-- The other blocks keep their links and their capacities. -/
theorem OnlyIn.words_of_ne {buckets : Nat → Fin NBUCKETS} {ram ram' : Ram} {c d : Nat}
    {chunks : List Nat} {first last : Nat} (only : OnlyIn buckets ram ram' c)
    (tiles : Tiles (view ram buckets).size first chunks last) (bounded : last ≤ 65536)
    (changed : c ∈ chunks) (member : d ∈ chunks) (differ : d ≠ c) :
    wordAt ram' (d + 1) = wordAt ram (d + 1) ∧ wordAt ram' (d + 3) = wordAt ram (d + 3) := by
  have header : headSize.toNat = 6 := rfl
  have same : ∀ i < 6, byteAt ram' (d + i) = byteAt ram (d + i) := fun i inside =>
    only.byteAt_of_ne tiles bounded changed member differ (by omega)
  exact ⟨wordAt_congr (same 1 (by decide)) (same 2 (by decide)),
    wordAt_congr (same 3 (by decide)) (same 4 (by decide))⟩

end Frobio.Froblib
