/-
This file is about rounding to numbers with few significant bits, as a floating point format does
with an integer: to the nearest, and to the even one of two that are as near.

What matters here is that rounding is monotone. A multiple of the unit is a bound of what is rounded
if it is one of the number, and between numbers of different sizes lies a power of two, which is a
multiple of the unit of either.
-/

import Mathlib.Data.Nat.Size
import Mathlib.Tactic

namespace Frobio.Rounding

/-- The nearest multiple of the unit, or the even one of two. -/
def roundTo (unit n : Nat) : Nat :=
  if unit < 2 * (n % unit) ∨ 2 * (n % unit) = unit ∧ n / unit % 2 = 1 then (n / unit + 1) * unit
  else n / unit * unit

/-- The unit that leaves this many significant bits. -/
def unit (bits n : Nat) : Nat := 2 ^ (Nat.size n - bits)

/-- The number, with this many significant bits. -/
def round (bits n : Nat) : Nat := roundTo (unit bits n) n

section

variable {u m n c bits : Nat}

theorem roundTo_mono (less : m ≤ n) : roundTo u m ≤ roundTo u n := by
  have quotient := Nat.div_le_div_right (c := u) less
  rcases Nat.lt_or_eq_of_le quotient with lower | same
  · calc roundTo u m ≤ (m / u + 1) * u := by
          rw [roundTo]
          split
          · exact le_rfl
          · exact Nat.mul_le_mul_right _ (Nat.le_succ _)
      _ ≤ n / u * u := Nat.mul_le_mul_right _ lower
      _ ≤ roundTo u n := by
          rw [roundTo]
          split
          · exact Nat.mul_le_mul_right _ (Nat.le_succ _)
          · exact le_rfl
  · have remainder : m % u ≤ n % u := by
      have mParts := Nat.div_add_mod m u
      have nParts := Nat.div_add_mod n u
      rw [same] at mParts
      omega
    rw [roundTo, roundTo, same]
    split
    · rename_i up
      rw [if_pos]
      rcases up with more | half
      · exact .inl (by omega)
      · by_cases equal : 2 * (n % u) = u
        · exact .inr ⟨equal, half.2⟩
        · exact .inl (by omega)
    · split
      · exact Nat.mul_le_mul_right _ (Nat.le_succ _)
      · exact le_rfl

theorem roundTo_mul (c : Nat) : roundTo u (c * u) = c * u := by
  by_cases positive : 0 < u
  · rw [roundTo, Nat.mul_mod_left, Nat.mul_div_cancel c positive, if_neg (by omega)]
  · obtain rfl : u = 0 := by omega
    rw [roundTo]
    split <;> simp

theorem roundTo_le (bound : n ≤ c * u) : roundTo u n ≤ c * u :=
  (roundTo_mono bound).trans_eq (roundTo_mul c)

theorem le_roundTo (bound : c * u ≤ n) : c * u ≤ roundTo u n :=
  (roundTo_mul c).symm.trans_le (roundTo_mono bound)

/-- Rounding keeps the order, whatever the sizes are. -/
theorem round_mono (positive : 0 < bits) (less : m ≤ n) : round bits m ≤ round bits n := by
  have sizes := Nat.size_le_size less
  by_cases same : Nat.size m - bits = Nat.size n - bits
  · rw [round, round, unit, unit, same]
    exact roundTo_mono less
  -- a power of two is between
  have power : ∀ {e s : Nat}, e ≤ s → 2 ^ s = 2 ^ (s - e) * 2 ^ e := fun within => by
    rw [← pow_add, Nat.sub_add_cancel within]
  calc round bits m ≤ 2 ^ Nat.size m := by
        have high := power (Nat.sub_le (Nat.size m) bits)
        rw [high]
        exact roundTo_le (high ▸ (Nat.lt_size_self m).le)
    _ ≤ 2 ^ (Nat.size n - 1) := Nat.pow_le_pow_right Nat.two_pos (by omega)
    _ ≤ round bits n := by
        have low := power (show Nat.size n - bits ≤ Nat.size n - 1 by omega)
        rw [low]
        refine le_roundTo (low ▸ ?_)
        exact Nat.lt_size.mp (by omega)

end

end Frobio.Rounding
