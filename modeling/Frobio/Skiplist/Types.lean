/-
This file models the string keys of a skip list. The score of a string is its first 8 bytes, as a
big-endian number that is rounded to a `float64`; it is an integer, so that a natural number stands
for it here. The order of scores is the order of strings, whatever is rounded away.
-/

import Mathlib.Tactic
import Frobio.Lib.Rounding
import Frobio.Skiplist.Sound

namespace Frobio.Skiplist

open Rounding (round round_mono)
open Std (TransCmp)

/-- `float64(hash)`: an integer is kept in 53 bits. -/
def float64 (n : Nat) : Nat := round 53 n

/-- The loop of `calcScore` over the first 8 bytes, as a big-endian `uint64`. -/
def hashFrom (hash i : Nat) : List UInt8 → Nat
  | [] => hash
  | byte :: rest =>
    if i < 8 then hashFrom (hash ||| byte.toNat <<< (64 - 8 - i * 8)) (i + 1) rest else hash

/-- `stringType`. -/
def stringType : Comparable (List UInt8) Nat where
  compare v1 v2 := if v1 = v2 then .eq else if v2 < v1 then .gt else .lt
  calcScore key := float64 (hashFrom 0 0 key)

/-- What the bytes from an index on count. -/
def weight (i : Nat) : List UInt8 → Nat
  | [] => 0
  | byte :: rest => if i < 8 then byte.toNat * 2 ^ (64 - 8 - i * 8) + weight (i + 1) rest else 0

theorem weight_lt {i : Nat} (text : List UInt8) (within : i ≤ 8) :
    weight i text < 2 ^ (64 - i * 8) := by
  induction text generalizing i with
  | nil => exact Nat.two_pow_pos _
  | cons byte rest inductionHypothesis =>
    rw [weight]
    split
    · rename_i less
      have later := inductionHypothesis (show i + 1 ≤ 8 by omega)
      have high : byte.toNat + 1 ≤ 2 ^ 8 := byte.toNat_lt
      rw [show 64 - (i + 1) * 8 = 64 - 8 - i * 8 by omega] at later
      calc byte.toNat * 2 ^ (64 - 8 - i * 8) + weight (i + 1) rest
          < byte.toNat * 2 ^ (64 - 8 - i * 8) + 2 ^ (64 - 8 - i * 8) := by omega
        _ = (byte.toNat + 1) * 2 ^ (64 - 8 - i * 8) := by ring
        _ ≤ 2 ^ 8 * 2 ^ (64 - 8 - i * 8) := Nat.mul_le_mul_right _ high
        _ = 2 ^ (64 - i * 8) := by
          rw [← pow_add]
          congr 1
          omega
    · exact Nat.two_pow_pos _

/-- A text that comes first in the order of texts does not count more. -/
theorem weight_mono {i : Nat} {lhs rhs : List UInt8} (less : lhs < rhs) :
    weight i lhs ≤ weight i rhs := by
  induction lhs generalizing i rhs with
  | nil => exact Nat.zero_le _
  | cons byte rest inductionHypothesis =>
    cases rhs with
    | nil => exact absurd less (List.not_lt_nil _)
    | cons byte' rest' =>
      rw [weight, weight]
      split
      · rename_i within
        rcases List.cons_lt_cons_iff.mp less with lower | ⟨rfl, later⟩
        · have small := weight_lt rest (show i + 1 ≤ 8 by omega)
          rw [show 64 - (i + 1) * 8 = 64 - 8 - i * 8 by omega] at small
          have lower : byte.toNat + 1 ≤ byte'.toNat := lower
          calc byte.toNat * 2 ^ (64 - 8 - i * 8) + weight (i + 1) rest
              ≤ (byte.toNat + 1) * 2 ^ (64 - 8 - i * 8) := by
                rw [Nat.succ_mul]
                omega
            _ ≤ byte'.toNat * 2 ^ (64 - 8 - i * 8) := Nat.mul_le_mul_right _ lower
            _ ≤ _ := Nat.le_add_right _ _
        · exact Nat.add_le_add_left (inductionHypothesis later) _
      · exact le_rfl

/-- The bytes are put side by side. -/
theorem hashFrom_eq {i : Nat} (text : List UInt8) (within : i ≤ 8) (high : Nat) :
    hashFrom (2 ^ (64 - i * 8) * high) i text = 2 ^ (64 - i * 8) * high + weight i text := by
  induction text generalizing i high with
  | nil => rfl
  | cons byte rest inductionHypothesis =>
    rw [hashFrom, weight]
    split
    · rename_i less
      have part : byte.toNat <<< (64 - 8 - i * 8) < 2 ^ (64 - i * 8) := by
        rw [Nat.shiftLeft_eq]
        calc byte.toNat * 2 ^ (64 - 8 - i * 8) < 2 ^ 8 * 2 ^ (64 - 8 - i * 8) :=
              Nat.mul_lt_mul_of_pos_right byte.toNat_lt (Nat.two_pow_pos _)
          _ = 2 ^ (64 - i * 8) := by
            rw [← pow_add]
            congr 1
            omega
      have shift : 64 - i * 8 = 64 - (i + 1) * 8 + 8 := by omega
      have unit : 2 ^ (64 - i * 8) * high + byte.toNat * 2 ^ (64 - 8 - i * 8) =
          2 ^ (64 - (i + 1) * 8) * (2 ^ 8 * high + byte.toNat) := by
        rw [shift, show 64 - 8 - i * 8 = 64 - (i + 1) * 8 by omega, pow_add]
        ring
      rw [← Nat.two_pow_add_eq_or_of_lt part, Nat.shiftLeft_eq, unit,
        inductionHypothesis (show i + 1 ≤ 8 by omega), ← unit, Nat.add_assoc]
    · rfl

/-- Scores are in the order of the strings. -/
theorem calcScore_mono {lhs rhs : List UInt8} (less : lhs < rhs) :
    stringType.calcScore lhs ≤ stringType.calcScore rhs := by
  have value : ∀ text, hashFrom 0 0 text = weight 0 text := by
    intro text
    have whole := hashFrom_eq text (Nat.zero_le 8) 0
    rwa [Nat.mul_zero, Nat.zero_add] at whole
  refine round_mono (by decide) ?_
  rw [value, value]
  exact weight_mono less

theorem compare_eq_gt {lhs rhs : List UInt8} : stringType.compare lhs rhs = .gt ↔ rhs < lhs := by
  rw [stringType]
  dsimp only
  by_cases same : lhs = rhs
  · rw [if_pos same, same]
    exact iff_of_false (by decide) (List.lt_irrefl _)
  · rw [if_neg same]
    by_cases less : rhs < lhs
    · rw [if_pos less]
      exact iff_of_true rfl less
    · rw [if_neg less]
      exact iff_of_false (by decide) less

theorem compare_eq_eq {lhs rhs : List UInt8} : stringType.compare lhs rhs = .eq ↔ lhs = rhs := by
  rw [stringType]
  dsimp only
  by_cases same : lhs = rhs
  · rw [if_pos same]
    exact iff_of_true rfl same
  · rw [if_neg same]
    split
    · exact iff_of_false (by decide) same
    · exact iff_of_false (by decide) same

theorem compare_eq_lt {lhs rhs : List UInt8} : stringType.compare lhs rhs = .lt ↔ lhs < rhs := by
  rw [stringType]
  dsimp only
  by_cases same : lhs = rhs
  · rw [if_pos same, same]
    exact iff_of_false (by decide) (List.lt_irrefl _)
  · rw [if_neg same]
    by_cases greater : rhs < lhs
    · rw [if_pos greater]
      exact iff_of_false (by decide) (List.lt_asymm greater)
    · rw [if_neg greater]
      refine iff_of_true rfl (Decidable.not_not.mp fun less => same ?_)
      exact List.le_antisymm greater less

theorem isLE_compare {lhs rhs : List UInt8} : (stringType.compare lhs rhs).isLE ↔ lhs ≤ rhs := by
  cases compared : stringType.compare lhs rhs with
  | lt => exact iff_of_true rfl (List.le_of_lt (compare_eq_lt.mp compared))
  | eq => exact iff_of_true rfl (compare_eq_eq.mp compared ▸ List.le_refl _)
  | gt => exact iff_of_false (by decide) (List.not_le.mpr (compare_eq_gt.mp compared))

instance : TransCmp stringType.compare where
  eq_swap {a b} := by
    cases compared : stringType.compare b a with
    | lt => exact compare_eq_gt.mpr (compare_eq_lt.mp compared)
    | eq => exact compare_eq_eq.mpr (compare_eq_eq.mp compared).symm
    | gt => exact compare_eq_lt.mpr (compare_eq_gt.mp compared)
  isLE_trans first second :=
    isLE_compare.mpr (List.le_trans (isLE_compare.mp first) (isLE_compare.mp second))

theorem scores_stringType : Scores stringType where
  of_gt _ _ greater := calcScore_mono (compare_eq_gt.mp greater)
  of_lt _ _ less := calcScore_mono (compare_eq_lt.mp less)
  of_eq _ _ same := by rw [compare_eq_eq.mp same]

end Frobio.Skiplist
