/-
This file is about numerals: texts of digits, the most significant one first.

`read` is the loop that takes digits from the front of a text as long as there are any, and
keeps their number in a word of limited size. What it returns is the value of the longest
numeral in front of the text, modulo that size, and the rest of the text. Which characters are
digits, and of what value, is a parameter.
-/

import Mathlib.Data.List.TakeWhile
import Mathlib.Data.Nat.Digits.Defs
import Mathlib.Tactic

namespace Frobio.Numeral

variable {Character : Type}

/-- The digits at the front of a text are read into a word, until another character comes. -/
def read (digit : Character → Option Nat) (base size : Nat) : Nat → List Character →
    Nat × List Character
  | z, [] => (z, [])
  | z, c :: rest =>
    match digit c with
    | some d => read digit base size ((base * z + d) % size) rest
    | none => (z, c :: rest)

section

variable (digit : Character → Option Nat)

/-- All characters are digits. -/
def Digits (text : List Character) : Prop := ∀ c ∈ text, (digit c).isSome = true

instance (text : List Character) : Decidable (Digits digit text) :=
  inferInstanceAs (Decidable (∀ c ∈ text, (digit c).isSome = true))

/-- No digit comes first. -/
def Ends (text : List Character) : Prop := ∀ c, text.head? = some c → digit c = none

/-- The number of a text of digits, with a number in front of it. -/
def valueFrom (base : Nat) (z : Nat) (text : List Character) : Nat :=
  text.foldl (fun z c => base * z + (digit c).getD 0) z

def value (base : Nat) (text : List Character) : Nat := valueFrom digit base 0 text

end

variable {digit : Character → Option Nat} {base size : Nat}

theorem digits_nil : Digits digit [] := fun _ member => absurd member List.not_mem_nil

theorem ends_nil : Ends digit [] := nofun

theorem ends_cons {c : Character} (none : digit c = none) (text : List Character) :
    Ends digit (c :: text) := fun _ first => Option.some.inj first ▸ none

theorem digits_cons {c : Character} {text : List Character} :
    Digits digit (c :: text) ↔ (∃ d, digit c = some d) ∧ Digits digit text := by
  rw [Digits, List.forall_mem_cons, Option.isSome_iff_exists, Digits]

/-- Every text begins with a numeral, which may be empty, that is as long as it can be. -/
theorem exists_split (digit : Character → Option Nat) (text : List Character) :
    ∃ digits rest, text = digits ++ rest ∧ Digits digit digits ∧ Ends digit rest := by
  induction text with
  | nil => exact ⟨[], [], rfl, digits_nil, ends_nil⟩
  | cons c text inductionHypothesis =>
    cases known : digit c with
    | none =>
      exact ⟨[], c :: text, rfl, digits_nil, ends_cons known text⟩
    | some d =>
      obtain ⟨digits, rest, rfl, are, ends⟩ := inductionHypothesis
      exact ⟨c :: digits, rest, rfl, digits_cons.mpr ⟨⟨d, known⟩, are⟩, ends⟩

/-- A text has only one longest numeral in front. -/
theorem split_unique {digits digits' rest rest' : List Character} (are : Digits digit digits)
    (are' : Digits digit digits') (ends : Ends digit rest) (ends' : Ends digit rest')
    (same : digits ++ rest = digits' ++ rest') : digits = digits' ∧ rest = rest' := by
  have apart : ∀ {text more : List Character} {c : Character}, Digits digit (c :: text) →
      Ends digit (c :: more) → False := by
    intro text more c one none
    obtain ⟨⟨d, known⟩, -⟩ := digits_cons.mp one
    rw [none c rfl] at known
    cases known
  induction digits generalizing digits' with
  | nil =>
    cases digits' with
    | nil => exact ⟨rfl, same⟩
    | cons c text =>
      rw [List.nil_append, List.cons_append] at same
      exact (apart are' (same ▸ ends)).elim
  | cons c text inductionHypothesis =>
    cases digits' with
    | nil =>
      rw [List.nil_append, List.cons_append] at same
      exact (apart are (same ▸ ends')).elim
    | cons c' text' =>
      rw [List.cons_append, List.cons_append, List.cons.injEq] at same
      obtain ⟨texts, rests⟩ :=
        inductionHypothesis (digits_cons.mp are).2 (digits_cons.mp are').2 same.2
      exact ⟨by rw [same.1, texts], rests⟩

/-- What is read is the value of the numeral, as far as it fits. -/
theorem read_append {digits rest : List Character} (are : Digits digit digits)
    (ends : Ends digit rest) (z : Nat) :
    read digit base size (z % size) (digits ++ rest) =
      (valueFrom digit base z digits % size, rest) := by
  induction digits generalizing z with
  | nil =>
    cases rest with
    | nil => rfl
    | cons c rest => rw [List.nil_append, read, ends c rfl, valueFrom, List.foldl_nil]
  | cons c digits inductionHypothesis =>
    obtain ⟨⟨d, known⟩, are⟩ := digits_cons.mp are
    have step : (base * (z % size) + d) % size = (base * z + d) % size := by
      rw [Nat.add_mod, Nat.mul_mod, Nat.mod_mod, ← Nat.mul_mod, ← Nat.add_mod]
    rw [List.cons_append, read, known]
    dsimp only
    rw [step, inductionHypothesis are, valueFrom, valueFrom, List.foldl_cons, known,
      Option.getD_some]

theorem read_zero_append {digits rest : List Character} (are : Digits digit digits)
    (ends : Ends digit rest) :
    read digit base size 0 (digits ++ rest) = (value digit base digits % size, rest) := by
  have read := @read_append _ digit base size digits rest are ends 0
  rwa [Nat.zero_mod] at read

/-- Zeros in front make no difference. -/
theorem value_zeros {zero : Character} (null : digit zero = some 0) (count : Nat)
    (text : List Character) :
    value digit base (List.replicate count zero ++ text) = value digit base text := by
  induction count with
  | zero => rfl
  | succ count inductionHypothesis =>
    rw [List.replicate_succ, List.cons_append, value, valueFrom, List.foldl_cons, null,
      Option.getD_some, Nat.mul_zero]
    exact inductionHypothesis

theorem value_concat (text : List Character) (c : Character) :
    value digit base (text ++ [c]) = base * value digit base text + (digit c).getD 0 :=
  List.foldl_concat _ _ _ _

/-- A number in front of a text counts as many places as the text has. -/
theorem valueFrom_eq (z : Nat) (text : List Character) :
    valueFrom digit base z text = z * base ^ text.length + value digit base text := by
  induction text generalizing z with
  | nil =>
    rw [List.length_nil, Nat.pow_zero, Nat.mul_one]
    rfl
  | cons c text inductionHypothesis =>
    rw [value, valueFrom, valueFrom, List.foldl_cons, List.foldl_cons, ← valueFrom, ← valueFrom,
      inductionHypothesis, inductionHypothesis (base * 0 + _), List.length_cons, Nat.pow_succ]
    ring

theorem value_cons (c : Character) (text : List Character) :
    value digit base (c :: text) =
      (digit c).getD 0 * base ^ text.length + value digit base text := by
  rw [value, valueFrom, List.foldl_cons, ← valueFrom, valueFrom_eq, Nat.mul_zero, Nat.zero_add]

theorem value_lt (positive : 0 < base) (small : ∀ c d, digit c = some d → d < base)
    (text : List Character) : value digit base text < base ^ text.length := by
  induction text with
  | nil => exact Nat.one_pos
  | cons c text inductionHypothesis =>
    have first : (digit c).getD 0 ≤ base - 1 := by
      cases known : digit c with
      | none => exact Nat.zero_le _
      | some d => exact Nat.le_sub_one_of_lt (small c d known)
    have most := Nat.mul_le_mul_right (base ^ text.length) first
    rw [Nat.sub_one_mul] at most
    have whole := Nat.le_mul_of_pos_left (base ^ text.length) positive
    rw [value_cons, List.length_cons, Nat.pow_succ, Nat.mul_comm _ base]
    omega

/-- Numerals of one length are in the order of their values, where the digits are. -/
theorem append_lt_append_of_value_lt [LT Character] (positive : 0 < base)
    (small : ∀ c d, digit c = some d → d < base)
    (ordered : ∀ c c' d d', digit c = some d → digit c' = some d' → d < d' → c < c')
    (unique : ∀ c c' d, digit c = some d → digit c' = some d → c = c')
    {first second : List Character} (are : Digits digit first) (are' : Digits digit second)
    (length : first.length = second.length)
    (less : value digit base first < value digit base second) (rest rest' : List Character) :
    first ++ rest < second ++ rest' := by
  induction first generalizing second with
  | nil =>
    rw [List.length_eq_zero_iff.mp length.symm] at less
    exact absurd less (Nat.lt_irrefl _)
  | cons c first inductionHypothesis =>
    obtain ⟨c', second, rfl⟩ := List.exists_cons_of_length_eq_add_one length.symm
    obtain ⟨⟨d, known⟩, are⟩ := digits_cons.mp are
    obtain ⟨⟨d', known'⟩, are'⟩ := digits_cons.mp are'
    have length : first.length = second.length := Nat.succ.inj length
    have bound := value_lt positive small second
    rw [value_cons, value_cons, known, known', Option.getD_some, Option.getD_some, length] at less
    rw [List.cons_append, List.cons_append, List.cons_lt_cons_iff]
    rcases Nat.lt_trichotomy d d' with below | rfl | above
    · exact .inl (ordered c c' d d' known known' below)
    · exact .inr ⟨unique c c' d known known', inductionHypothesis are are' length (by omega)⟩
    · have more := Nat.mul_le_mul_right (base ^ second.length) above
      rw [Nat.succ_mul] at more
      omega

/-- The digits of a number are a numeral of it. -/
theorem value_digits {write : Nat → Character} (large : 1 < base)
    (inverse : ∀ d < base, digit (write d) = some d) (n : Nat) :
    value digit base ((Nat.digits base n).map write).reverse = n := by
  induction n using Nat.strong_induction_on with
  | _ n inductionHypothesis =>
    by_cases zero : n = 0
    · rw [zero, Nat.digits_zero]
      rfl
    · rw [Nat.digits_def' large (Nat.pos_of_ne_zero zero), List.map_cons, List.reverse_cons,
        value_concat, inductionHypothesis _ (Nat.div_lt_self (Nat.pos_of_ne_zero zero) large),
        inverse _ (Nat.mod_lt _ (Nat.zero_lt_of_lt large)), Option.getD_some, Nat.div_add_mod]

end Frobio.Numeral
