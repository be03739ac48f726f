/-
This file is about matchers that are told what is to follow. A matcher for a language finds out of a
text whether some front of it is a word of the language and the rest is what is to follow.

`Decides` says that a test always has an answer, and that the answer is right. The rules say what is
to be found for the languages that patterns are made of, letter by letter.
-/

import Mathlib.Computability.Language
import Mathlib.Tactic

namespace Frobio.Matching

open Computability

variable {α : Type} {L M : Language α} {K : List α → Prop} {p : α → Prop} {text rest : List α}
  {c : α}

/-- A front of the text is a word, and the rest is what is to follow. -/
def Follows (L : Language α) (K : List α → Prop) (text : List α) : Prop :=
  ∃ front ∈ L, ∃ back, text = front ++ back ∧ K back

/-- The test has an answer for every text, and says this. -/
def Decides (f : List α → Option Bool) (K : List α → Prop) : Prop :=
  ∀ text, ∃ answer, f text = some answer ∧ (answer = true ↔ K text)

/-- The words of one letter. -/
def letters (p : α → Prop) : Language α := {word | ∃ c, p c ∧ word = [c]}

theorem Decides.congr {f : List α → Option Bool} {K' : List α → Prop} (decides : Decides f K)
    (same : ∀ text, K text ↔ K' text) : Decides f K' := by
  intro text
  obtain ⟨answer, is, right⟩ := decides text
  exact ⟨answer, is, right.trans (same text)⟩

theorem mem_iff_follows : text ∈ L ↔ Follows L (· = []) text := by
  constructor
  · intro member
    exact ⟨text, member, [], (List.append_nil text).symm, rfl⟩
  · rintro ⟨front, member, back, rfl, rfl⟩
    rwa [List.append_nil]

theorem follows_one : Follows 1 K text ↔ K text := by
  constructor
  · rintro ⟨front, member, back, rfl, holds⟩
    rw [Language.mem_one] at member
    rwa [member]
  · intro holds
    exact ⟨[], Language.nil_mem_one, text, rfl, holds⟩

theorem follows_mul : Follows (L * M) K text ↔ Follows L (Follows M K) text := by
  constructor
  · rintro ⟨front, member, back, rfl, holds⟩
    obtain ⟨first, inL, second, inM, rfl⟩ := Language.mem_mul.mp member
    exact ⟨first, inL, second ++ back, List.append_assoc _ _ _, second, inM, back, rfl, holds⟩
  · rintro ⟨first, inL, _, rfl, second, inM, back, rfl, holds⟩
    exact ⟨first ++ second, Language.append_mem_mul inL inM, back, (List.append_assoc _ _ _).symm,
      holds⟩

theorem follows_add : Follows (L + M) K text ↔ Follows L K text ∨ Follows M K text := by
  constructor
  · rintro ⟨front, inL | inM, rest⟩
    · exact .inl ⟨front, inL, rest⟩
    · exact .inr ⟨front, inM, rest⟩
  · rintro (⟨front, inL, rest⟩ | ⟨front, inM, rest⟩)
    · exact ⟨front, .inl inL, rest⟩
    · exact ⟨front, .inr inM, rest⟩

theorem not_follows_letters_nil : ¬Follows (letters p) K [] := by
  rintro ⟨_, ⟨c, -, rfl⟩, back, same, -⟩
  cases same

theorem follows_letters_cons : Follows (letters p) K (c :: rest) ↔ p c ∧ K rest := by
  constructor
  · rintro ⟨_, ⟨d, holds, rfl⟩, back, same, follows⟩
    obtain ⟨rfl, rfl⟩ := List.cons.inj same
    exact ⟨holds, follows⟩
  · rintro ⟨holds, follows⟩
    exact ⟨[c], ⟨c, holds, rfl⟩, rest, rfl, follows⟩

/-- Repeated letters: none of them, or one and the others. -/
theorem follows_kstar : Follows L∗ K text ↔ K text ∨ Follows L (Follows L∗ K) text := by
  rw [← Language.one_add_self_mul_kstar_eq_kstar, follows_add, follows_one, follows_mul,
    Language.one_add_self_mul_kstar_eq_kstar]

theorem follows_kstar_nil : Follows (letters p)∗ K [] ↔ K [] := by
  rw [follows_kstar]
  exact or_iff_left not_follows_letters_nil

theorem follows_kstar_cons : Follows (letters p)∗ K (c :: rest) ↔
    K (c :: rest) ∨ p c ∧ Follows (letters p)∗ K rest := by
  rw [follows_kstar, follows_letters_cons]

/-- All of a text can be gone over. -/
theorem follows_all (holds : K []) (text : List α) : Follows (letters fun _ => True)∗ K text := by
  induction text with
  | nil => exact follows_kstar_nil.mpr holds
  | cons c text inductionHypothesis =>
    exact follows_kstar_cons.mpr (.inr ⟨trivial, inductionHypothesis⟩)

/-- A test of one letter, and then of what is to follow. -/
theorem decides_letters {f g : List α → Option Bool} (decides : Decides f K)
    (nil : g [] = some false)
    (cons : ∀ c text, p c ∧ g (c :: text) = f text ∨ ¬p c ∧ g (c :: text) = some false) :
    Decides g (Follows (letters p) K) := by
  intro text
  cases text with
  | nil => exact ⟨false, nil, iff_of_false Bool.false_ne_true not_follows_letters_nil⟩
  | cons c text =>
    simp only [follows_letters_cons]
    rcases cons c text with ⟨holds, is⟩ | ⟨not, is⟩
    · obtain ⟨answer, found, right⟩ := decides text
      exact ⟨answer, is.trans found, right.trans (and_iff_right holds).symm⟩
    · exact ⟨false, is, iff_of_false Bool.false_ne_true fun both => not both.1⟩

/-! ### The first match -/

/-- The texts from each letter on, up to that, are no match, but the text from that letter on is. -/
def FirstAt (K : List α → Prop) (text : List α) (idx : Nat) : Prop :=
  idx < text.length ∧ K (text.drop idx) ∧ ∀ earlier < idx, ¬K (text.drop earlier)

theorem not_firstAt_nil {idx : Nat} : ¬FirstAt K [] idx := fun first => Nat.not_lt_zero idx first.1

theorem firstAt_cons_of_match {idx : Nat} (holds : K (c :: rest)) :
    FirstAt K (c :: rest) idx ↔ idx = 0 := by
  constructor
  · rintro ⟨-, -, none⟩
    exact Nat.eq_zero_of_not_pos fun later => none 0 later holds
  · rintro rfl
    exact ⟨Nat.zero_lt_succ _, holds, fun earlier before => absurd before (Nat.not_lt_zero _)⟩

theorem firstAt_cons_of_not {idx : Nat} (not : ¬K (c :: rest)) :
    FirstAt K (c :: rest) idx ↔ ∃ later, idx = later + 1 ∧ FirstAt K rest later := by
  cases idx with
  | zero =>
    refine iff_of_false (fun first => not first.2.1) ?_
    rintro ⟨later, same, -⟩
    cases same
  | succ idx =>
    constructor
    · rintro ⟨inside, holds, none⟩
      exact ⟨idx, rfl, Nat.lt_of_succ_lt_succ inside, holds, fun earlier before =>
        none (earlier + 1) (Nat.succ_lt_succ before)⟩
    · rintro ⟨later, same, inside, holds, none⟩
      obtain rfl := Nat.succ.inj same
      refine ⟨Nat.succ_lt_succ inside, holds, fun earlier before => ?_⟩
      cases earlier with
      | zero => exact not
      | succ earlier => exact none earlier (Nat.lt_of_succ_lt_succ before)

/-! ### Tests made of tests -/

section

variable {f g h : List α → Option Bool} {one : α → Option Bool}

/-- The test of a letter has an answer for every letter, and says this. -/
def DecidesLetter (one : α → Option Bool) (p : α → Prop) : Prop :=
  ∀ c, ∃ answer, one c = some answer ∧ (answer = true ↔ p c)

/-- A second test is made where the first one fails. -/
theorem decides_or {K' : List α → Prop} (first : Decides f K) (second : Decides g K')
    (both : ∀ text, h text = (f text).bind fun answer =>
      if answer = true then some true else g text) : Decides h fun text => K text ∨ K' text := by
  intro text
  obtain ⟨answer, found, right⟩ := first text
  rw [both, found, Option.bind_some]
  cases answer with
  | true => exact ⟨true, rfl, iff_of_true rfl (.inl (right.mp rfl))⟩
  | false =>
    obtain ⟨other, also, rightAlso⟩ := second text
    refine ⟨other, also, rightAlso.trans (or_iff_right fun holds => ?_).symm⟩
    exact Bool.false_ne_true (right.mpr holds)

/-- The test of one letter, and then of the rest. -/
def oneThen (one : α → Option Bool) (f : List α → Option Bool) : List α → Option Bool
  | [] => some false
  | c :: text => (one c).bind fun answer => if answer = true then f text else some false

theorem decides_oneThen (decides : Decides f K) (letter : DecidesLetter one p) :
    Decides (oneThen one f) (Follows (letters p) K) := by
  refine decides_letters decides rfl fun c text => ?_
  obtain ⟨answer, found, right⟩ := letter c
  rw [oneThen, found, Option.bind_some]
  cases answer with
  | true => exact .inl ⟨right.mp rfl, rfl⟩
  | false => exact .inr ⟨fun holds => Bool.false_ne_true (right.mpr holds), rfl⟩

/-- What is to follow is tried before each letter is gone over. -/
theorem decides_kstar (decides : Decides f K) (letter : DecidesLetter one p) (nil : g [] = f [])
    (cons : ∀ c text, g (c :: text) = (f (c :: text)).bind fun answer =>
      if answer = true then some true else oneThen one g (c :: text)) :
    Decides g (Follows (letters p)∗ K) := by
  intro text
  induction text with
  | nil =>
    obtain ⟨answer, is, right⟩ := decides []
    exact ⟨answer, nil.trans is, right.trans follows_kstar_nil.symm⟩
  | cons c text inductionHypothesis =>
    obtain ⟨answer, is, right⟩ := decides (c :: text)
    rw [cons, is, Option.bind_some]
    simp only [follows_kstar_cons]
    cases answer with
    | true => exact ⟨true, rfl, iff_of_true rfl (.inl (right.mp rfl))⟩
    | false =>
      have notYet : ¬K (c :: text) := fun holds => Bool.false_ne_true (right.mpr holds)
      obtain ⟨goesOn, found, rightOne⟩ := letter c
      rw [if_neg Bool.false_ne_true, oneThen, found, Option.bind_some, or_iff_right notYet]
      cases goesOn with
      | true =>
        obtain ⟨later, found, also⟩ := inductionHypothesis
        exact ⟨later, found, also.trans (and_iff_right (rightOne.mp rfl)).symm⟩
      | false =>
        refine ⟨false, rfl, iff_of_false Bool.false_ne_true fun both => ?_⟩
        exact Bool.false_ne_true (rightOne.mpr both.1)

end

end Frobio.Matching
