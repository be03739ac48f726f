/-
This file models `CheckSum16` of `axiom41/axcore.c`, which the command SUM calls, and shows
of which regions of memory it returns the sum.

The addresses are words, and so is the end of the region, which the caller adds up: a region
that ends with the memory has the end zero. A word that is read at the last address has its
second byte at the first one.
-/

import Mathlib.Data.UInt
import Mathlib.Algebra.BigOperators.Group.List.Basic
import Mathlib.Tactic

namespace Frobio.Axcore

/-! ### The loop -/

/-- `*(word*)begin`. -/
def peekWord (memory : UInt16 → UInt8) (address : UInt16) : UInt16 :=
  UInt16.ofNat ((memory address).toNat * 256 + (memory (address + 1)).toNat)

/-- The loop of `CheckSum16`, with the rounds that are left. -/
def checkSumLoop (memory : UInt16 → UInt8) : Nat → UInt16 → UInt16 → UInt16 → Option UInt16
  | 0, _, _, _ => none
  | rounds + 1, start, stop, sum =>
    if start < stop then
      checkSumLoop memory rounds (start + 2) stop (sum + peekWord memory start)
    else some sum

def CheckSum16 (memory : UInt16 → UInt8) (rounds : Nat) (start stop : UInt16) : Option UInt16 :=
  checkSumLoop memory rounds start stop 0

/-! ### The sum of a region -/

/-- The big-endian words from an address on, as numbers. -/
def wordsFrom (memory : UInt16 → UInt8) (p count : Nat) : List Nat :=
  (List.range count).map fun i =>
    (memory (UInt16.ofNat (p + 2 * i))).toNat * 256 + (memory (UInt16.ofNat (p + 2 * i + 1))).toNat

/-- An odd length is rounded up to whole words. -/
def regionSum (memory : UInt16 → UInt8) (p n : Nat) : Nat :=
  (wordsFrom memory p ((n + 1) / 2)).sum % 65536

/-- The request for the sum of a region is answered with it. -/
def Sums (memory : UInt16 → UInt8) (p n : UInt16) : Prop :=
  ∃ rounds sum, CheckSum16 memory rounds p (p + n) = some sum ∧
    sum.toNat = regionSum memory p.toNat n.toNat

variable {memory : UInt16 → UInt8}

theorem wordsFrom_succ (p count : Nat) :
    wordsFrom memory p (count + 1) =
      ((memory (UInt16.ofNat p)).toNat * 256 + (memory (UInt16.ofNat (p + 1))).toNat) ::
        wordsFrom memory (p + 2) count := by
  rw [wordsFrom, List.range_succ_eq_map, List.map_cons, List.map_map]
  refine congrArg₂ _ rfl (List.map_congr_left fun i _ => ?_)
  have next : p + 2 * (i + 1) = p + 2 + 2 * i := by omega
  show _ * 256 + _ = _
  rw [next]

theorem toNat_peekWord (p : UInt16) :
    (peekWord memory p).toNat =
      (memory (UInt16.ofNat p.toNat)).toNat * 256 +
        (memory (UInt16.ofNat (p.toNat + 1))).toNat := by
  have next : UInt16.ofNat (p.toNat + 1) = p + 1 := by
    rw [UInt16.ofNat_add, UInt16.ofNat_toNat]
    rfl
  have high := (memory p).toNat_lt
  have low := (memory (p + 1)).toNat_lt
  rw [next, UInt16.ofNat_toNat, peekWord, UInt16.toNat_ofNat']
  omega

/-- As long as no address goes over the end of memory, the loop adds up the words. -/
theorem checkSumLoop_of_words {count : Nat} {start stop sum : UInt16} {rounds : Nat}
    (inside : start.toNat + 2 * count < 65536) (last : stop.toNat ≤ start.toNat + 2 * count)
    (first : 0 < count → start.toNat + 2 * count ≤ stop.toNat + 1) (enough : count < rounds) :
    ∃ result, checkSumLoop memory rounds start stop sum = some result ∧
      result.toNat = (sum.toNat + (wordsFrom memory start.toNat count).sum) % 65536 := by
  induction count generalizing start sum rounds with
  | zero =>
    obtain ⟨rounds, rfl⟩ := Nat.exists_eq_succ_of_ne_zero (Nat.ne_of_gt enough)
    have done : ¬start < stop := UInt16.not_lt.mpr (UInt16.le_iff_toNat_le.mpr last)
    refine ⟨sum, if_neg done, ?_⟩
    have word := sum.toNat_lt
    show sum.toNat = (sum.toNat + 0) % 65536
    omega
  | succ count inductionHypothesis =>
    obtain ⟨rounds, rfl⟩ := Nat.exists_eq_succ_of_ne_zero (Nat.ne_of_gt (Nat.zero_lt_of_lt enough))
    have behind := first (Nat.succ_pos _)
    have more : start < stop := UInt16.lt_iff_toNat_lt.mpr (by omega)
    have next : (start + 2).toNat = start.toNat + 2 := by
      rw [UInt16.toNat_add]
      exact Nat.mod_eq_of_lt (by
        show start.toNat + 2 < 65536
        omega)
    obtain ⟨result, returned, value⟩ := @inductionHypothesis (start + 2)
      (sum + peekWord memory start) rounds (by omega) (by omega) (fun _ => by omega) (by omega)
    refine ⟨result, (if_pos more).trans returned, ?_⟩
    rw [value, next, wordsFrom_succ, List.sum_cons, UInt16.toNat_add, toNat_peekWord]
    omega

/-! ### Regions at the end of memory -/

/-- From an even address on, the odd end 65535 is never reached. -/
theorem checkSumLoop_endless {start stop sum : UInt16} (even : start.toNat % 2 = 0)
    (top : stop.toNat = 65535) (rounds : Nat) :
    checkSumLoop memory rounds start stop sum = none := by
  induction rounds generalizing start sum with
  | zero => rfl
  | succ rounds inductionHypothesis =>
    have below := start.toNat_lt
    have more : start < stop := UInt16.lt_iff_toNat_lt.mpr (by omega)
    have next : (start + 2).toNat = (start.toNat + 2) % 65536 := UInt16.toNat_add start 2
    exact (if_pos more).trans (inductionHypothesis (by omega))

/-- The sum of a region is right if and only if the region ends before the last address, or with it
and not as a word that begins before it, or where the end is zero the sum is zero as well. -/
theorem checkSum16_iff (memory : UInt16 → UInt8) (p n : UInt16)
    (inside : p.toNat + n.toNat ≤ 65536) :
    Sums memory p n ↔
      p.toNat + n.toNat < 65535 ∨
        p.toNat + n.toNat = 65535 ∧ p.toNat % 2 = 1 ∨
        p.toNat + n.toNat = 65536 ∧ regionSum memory p.toNat n.toNat = 0 := by
  have pBelow := p.toNat_lt
  have nBelow := n.toNat_lt
  have stop : (p + n).toNat = (p.toNat + n.toNat) % 65536 := UInt16.toNat_add p n
  by_cases whole : p.toNat + n.toNat = 65536
  · -- the end is zero, and the loop is not entered
    have zero : ¬p < p + n := fun less => by
      have less := UInt16.lt_iff_toNat_lt.mp less
      omega
    have returned : ∀ rounds, CheckSum16 memory (rounds + 1) p (p + n) = some 0 := fun rounds =>
      if_neg zero
    constructor
    · rintro ⟨rounds, sum, result, value⟩
      cases rounds with
      | zero => cases result
      | succ rounds =>
        obtain rfl := Option.some.inj ((returned rounds).symm.trans result)
        exact .inr (.inr ⟨whole, value.symm⟩)
    · rintro (less | ⟨less, _⟩ | ⟨_, none⟩)
      · omega
      · omega
      · exact ⟨1, 0, returned 0, none.symm⟩
  · by_cases endless : p.toNat + n.toNat = 65535 ∧ p.toNat % 2 = 0
    · refine iff_of_false ?_ (by omega)
      rintro ⟨rounds, sum, result, _⟩
      rw [CheckSum16, checkSumLoop_endless endless.2 (by omega) rounds] at result
      cases result
    · refine iff_of_true ?_ (by omega)
      obtain ⟨sum, returned, value⟩ := @checkSumLoop_of_words memory ((n.toNat + 1) / 2) p (p + n) 0
        ((n.toNat + 1) / 2 + 1) (by omega) (by omega) (fun _ => by omega) (Nat.lt_succ_self _)
      refine ⟨_, sum, returned, value.trans ?_⟩
      show (0 + (wordsFrom memory p.toNat ((n.toNat + 1) / 2)).sum) % 65536 = _
      rw [Nat.zero_add]
      rfl

/-- The sum of four bytes. -/
theorem sums_fourBytes : Sums (fun a => if a = 0x1001 then 5 else 0) 0x1000 4 :=
  (checkSum16_iff _ _ _ (by decide)).mpr (.inl (by decide))

/-- The last two bytes of memory are not looked at. -/
theorem not_sums_lastWord : ¬Sums (fun _ => 1) 0xFFFE 2 := by
  rintro ⟨rounds, sum, returned, value⟩
  cases rounds with
  | zero => cases returned
  | succ rounds =>
    have zero : (some 0 : Option UInt16) = some sum := returned
    obtain rfl := Option.some.inj zero
    revert value
    decide +kernel

end Frobio.Axcore
