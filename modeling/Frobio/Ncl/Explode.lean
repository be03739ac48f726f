/-
This file shows that `implode` undoes `explode`: what the formatter writes for the bytes of a
string, encoded as a list and taken apart again, is read as the numbers of the same bytes.
-/

import Frobio.Froblib.Format
import Frobio.Ncl.ListLaws

namespace Frobio.Ncl

open Froblib Format Program

/-! ### The code -/

/-- `SPrintf` of a `char` with `%d`. -/
def SPrintf (signed : Bool) (rounds : Nat) (c : UInt8) : Option CString :=
  match BufFormatVA rounds [37, 100] [.int (UInt16.ofInt (char signed c))] [] with
  | .done buf => some (bufFinish buf)
  | _ => none

/-- The loop of `Explode`, in which `scratch` has eight bytes with the NUL. -/
def explodeLoop (signed : Bool) (rounds : Nat) : List UInt8 → Buf → Option Buf
  | [], result => some result
  | c :: s, result =>
    (SPrintf signed rounds c).bind fun scratch =>
      if scratch.bytes.length < 8 then
        explodeLoop signed rounds s (bufAppElemS signed result scratch)
      else none

def Explode (signed : Bool) (rounds : Nat) (s : List UInt8) : Option CString :=
  (explodeLoop signed rounds s []).map bufFinish

/-! ### Numerals -/

theorem digit_byte {n : Nat} (small : n < 10) : (UInt8.ofNat (48 + n)).toNat = 48 + n := by
  rw [UInt8.toNat_ofNat']
  omega

theorem decimal_eq (n : Nat) : Coms.decimal n = staticQFormatUnsignedLong n := by
  induction n using Nat.strong_induction_on with
  | _ n inductionHypothesis =>
    rw [staticQFormatUnsignedLong, Coms.decimal]
    split
    · rename_i large
      have last : n % 10 < 10 := Nat.mod_lt _ (by decide)
      rw [Nat.toDigits_of_base_le (by decide) (by omega), List.map_append,
        ← inductionHypothesis (n / 10) (by omega), Coms.decimal]
      congr 1
      interval_cases n % 10
      all_goals rfl
    · rw [Nat.toDigits_of_lt_base (by omega)]
      interval_cases n
      all_goals rfl

theorem digit_of_mem {n : Nat} {c : UInt8} (member : c ∈ staticQFormatUnsignedLong n) :
    48 ≤ c ∧ c ≤ 57 := by
  induction n using Nat.strong_induction_on with
  | _ n inductionHypothesis =>
    have small {m : Nat} (small : m < 10) : 48 ≤ UInt8.ofNat (48 + m) ∧
        UInt8.ofNat (48 + m) ≤ 57 := by
      rw [UInt8.le_iff_toNat_le, UInt8.le_iff_toNat_le, digit_byte small]
      exact ⟨Nat.le_add_right 48 m, show 48 + m ≤ 57 by omega⟩
    rw [staticQFormatUnsignedLong] at member
    split at member
    · rcases List.mem_append.mp member with earlier | last
      · exact inductionHypothesis (n / 10) (by omega) earlier
      · rw [List.mem_singleton.mp last]
        exact small (Nat.mod_lt _ (by decide))
    · rw [List.mem_singleton.mp member]
      exact small (by omega)

/-- A digit behind others counts once where they count ten times. -/
theorem digits_append {s : List UInt8} (numeral : ∀ c ∈ s, 48 ≤ c ∧ c ≤ 57) {n : Nat}
    (small : n < 10) (z : Nat) :
    digits z (s ++ [UInt8.ofNat (48 + n)]) = digits z s * 10 + n := by
  induction s generalizing z with
  | nil =>
    have digit : 48 ≤ UInt8.ofNat (48 + n) ∧ UInt8.ofNat (48 + n) ≤ 57 := by
      rw [UInt8.le_iff_toNat_le, UInt8.le_iff_toNat_le, digit_byte small]
      exact ⟨Nat.le_add_right 48 n, show 48 + n ≤ 57 by omega⟩
    rw [List.nil_append, digits.eq_def]
    dsimp only
    rw [if_pos digit, digit_byte small, digits, digits, Nat.add_sub_cancel_left]
  | cons c s inductionHypothesis =>
    have digit := numeral c List.mem_cons_self
    rw [List.cons_append, digits, if_pos digit, digits, if_pos digit]
    exact inductionHypothesis (fun c member => numeral c (List.mem_cons_of_mem _ member)) _

theorem digits_staticQFormatUnsignedLong (n : Nat) :
    digits 0 (staticQFormatUnsignedLong n) = n := by
  induction n using Nat.strong_induction_on with
  | _ n inductionHypothesis =>
    rw [staticQFormatUnsignedLong]
    split
    · rw [digits_append (fun c member => digit_of_mem member) (Nat.mod_lt _ (by decide)),
        inductionHypothesis (n / 10) (by omega)]
      omega
    · rw [← List.nil_append [_],
        digits_append (fun c member => absurd member List.not_mem_nil) (by omega)]
      exact Nat.zero_add n

theorem staticQFormatUnsignedLong_ne_nil (n : Nat) : staticQFormatUnsignedLong n ≠ [] := by
  rw [staticQFormatUnsignedLong]
  split
  · exact List.append_ne_nil_of_right_ne_nil _ (List.cons_ne_nil _ _)
  · exact List.cons_ne_nil _ _

theorem bytes_formatInt (x : Int) : (formatInt x).bytes = staticQFormatSignedLong x := by
  have noNul (n : Nat) : 0 ∉ staticQFormatUnsignedLong n := fun member =>
    absurd (digit_of_mem member).1 (by decide)
  rw [formatInt, decimal_eq, decimal_eq, staticQFormatSignedLong]
  refine bytes_cut ?_
  split
  · rintro member
    rcases List.mem_cons.mp member with sign | digit
    · exact absurd sign (by decide)
    · exact noNul _ digit
  · exact noNul _

theorem atoi_minus {s : CString} {rest : List UInt8} (bytes : s.bytes = 45 :: rest) :
    atoi s = int (-(digits 0 rest : Int)) := by
  rw [atoi, bytes]
  rfl

theorem atoi_digit {s : CString} {c : UInt8} {rest : List UInt8} (digit : 48 ≤ c)
    (bytes : s.bytes = c :: rest) : atoi s = int (digits 0 (c :: rest)) := by
  have visible : ¬(c == 32 || 9 ≤ c && c ≤ 13) = true := by
    rw [Bool.or_eq_true, Bool.and_eq_true, beq_iff_eq, decide_eq_true_eq, decide_eq_true_eq]
    rintro (rfl | ⟨-, low⟩)
    · exact absurd digit (by decide)
    · exact absurd (UInt8.le_trans digit low) (by decide)
  have whole : (c :: rest).dropWhile (fun c => c == 32 || 9 ≤ c && c ≤ 13) = c :: rest :=
    List.dropWhile_cons_of_neg visible
  rw [atoi, bytes, whole]
  split
  · rename_i minus
    cases minus
    exact absurd digit (by decide)
  · rename_i plus
    cases plus
    exact absurd digit (by decide)
  · rfl

/-- A numeral is read as its number. -/
theorem atoi_formatInt {x : Int} (low : -32768 ≤ x) (high : x < 32768) :
    atoi (formatInt x) = x := by
  have word : int x = x := by
    show (x + 32768) % 65536 - 32768 = x
    omega
  have bytes := bytes_formatInt x
  rw [staticQFormatSignedLong] at bytes
  by_cases negative : x < 0
  · have same : -((-x).toNat : Int) = x := by omega
    rw [if_pos negative] at bytes
    rw [atoi_minus bytes, digits_staticQFormatUnsignedLong, same, word]
  · have same : (x.toNat : Int) = x := by omega
    rw [if_neg negative] at bytes
    have value := digits_staticQFormatUnsignedLong x.toNat
    obtain ⟨c, rest, cons⟩ :=
      List.exists_cons_of_ne_nil (staticQFormatUnsignedLong_ne_nil x.toNat)
    have digit : 48 ≤ c ∧ c ≤ 57 := digit_of_mem (cons ▸ List.mem_cons_self)
    rw [cons] at bytes value
    rw [atoi_digit digit.1 bytes, value, same, word]

/-! ### Bytes -/

theorem ofInt_char (signed : Bool) (c : UInt8) : UInt8.ofInt (char signed c) = c := by
  have byte := c.toNat_lt
  refine UInt8.toNat_inj.mp ?_
  rw [UInt8.ofInt, UInt8.toNat_ofNat', char]
  split
  · omega
  · omega

theorem char_bounds (signed : Bool) (c : UInt8) : -128 ≤ char signed c ∧ char signed c < 256 := by
  have byte := c.toNat_lt
  rw [char]
  split
  · omega
  · omega

theorem read_byte (signed : Bool) (c : UInt8) :
    UInt8.ofInt (atoi (formatInt (char signed c))) = c := by
  have bounds := char_bounds signed c
  rw [atoi_formatInt (by omega) (by omega), ofInt_char]

/-! ### The formatter -/

theorem bufFormatVA_int {rounds : Nat} (enough : 259 ≤ rounds) (x : UInt16) :
    BufFormatVA rounds [37, 100] [.int x] [] =
      .done (staticQFormatSignedLong x.toBitVec.toInt) := by
  have same : usual.signed x.toBitVec.toInt = staticQFormatSignedLong x.toBitVec.toInt := by
    rw [← written_eq_usual]
    rfl
  have meant : meaning (itemsUpTo 2 [37, 100]) [.int x] =
      some (staticQFormatSignedLong x.toBitVec.toInt) := by
    show some (List.replicate (0 - (usual.signed x.toBitVec.toInt).length) 32 ++
      usual.signed x.toBitVec.toInt ++ []) = _
    rw [Nat.zero_sub, List.append_nil, same]
    rfl
  have fits : Fits (itemsUpTo 2 [37, 100]) [.int x] := by
    show 0 - (usual.signed x.toBitVec.toInt).length < 256 ∧ True
    exact ⟨by omega, trivial⟩
  have more : 2 < rounds := by omega
  exact @formatLoop_of_fits rounds rounds (by omega) [37, 100] 2 (Nat.le_refl 2) more [.int x] _
    meant fits []

theorem sprintf_eq {rounds : Nat} (enough : 259 ≤ rounds) (signed : Bool) (c : UInt8) :
    SPrintf signed rounds c = some (formatInt (char signed c)) := by
  have bounds := char_bounds signed c
  have word : (UInt16.ofInt (char signed c)).toBitVec.toInt = char signed c := by
    show (BitVec.ofNat 16 (char signed c % 65536).toNat).toInt = char signed c
    have value : ((char signed c % 65536).toNat % 65536 : Int) = char signed c % 65536 := by omega
    rw [BitVec.toInt_eq_toNat_bmod, BitVec.toNat_ofNat]
    push_cast
    rw [value]
    exact (Int.emod_bmod ..).trans (Int.bmod_eq_of_le (by push_cast; omega) (by push_cast; omega))
  rw [SPrintf, bufFormatVA_int enough, word, ← bytes_formatInt]
  exact congrArg some (CString.ext (bytes_cut (formatInt (char signed c)).noNul))

/-- A numeral has place in `scratch`. -/
theorem length_formatInt_char (signed : Bool) (c : UInt8) :
    (formatInt (char signed c)).bytes.length < 8 := by
  have bounds := char_bounds signed c
  have few {n : Nat} (small : n < 1000) : (staticQFormatUnsignedLong n).length ≤ 3 := by
    rw [staticQFormatUnsignedLong_eq]
    exact length_numeral_le (by decide) (by decide) small _
  rw [bytes_formatInt, staticQFormatSignedLong]
  split
  · have digits := @few (-char signed c).toNat (by omega)
    rw [List.length_cons]
    omega
  · have digits := @few (char signed c).toNat (by omega)
    omega

theorem explode_eq {rounds : Nat} (enough : 259 ≤ rounds) {World : Type} (o : Outside World)
    (s : List UInt8) : Explode o.signed rounds s = some (explode o s) := by
  have loop (result : Buf) : explodeLoop o.signed rounds s result =
      some ((s.map fun c => formatInt (char o.signed c)).foldl (bufAppElemS o.signed) result) := by
    induction s generalizing result with
    | nil => rfl
    | cons c s inductionHypothesis =>
      rw [explodeLoop, sprintf_eq enough, Option.bind_some,
        if_pos (length_formatInt_char o.signed c), inductionHypothesis]
      rfl
  rw [Explode, loop]
  rfl

/-! ### The law -/

/-- `implode` undoes `explode`, which writes its numbers with the formatter. -/
theorem implode_explode {World : Type} (o : Outside World) (x y : Interp World)
    (name name' s : CString) :
    ∃ x' y', picolCommandExplode o [name, s] x = (some .ok, x') ∧
      (∃ rounds, Explode o.signed rounds s.bytes = some x'.result) ∧
      picolCommandImplode o [name', x'.result] y = (some .ok, y') ∧ y'.result = s := by
  obtain ⟨world, splits⟩ := split_formList o y (s.bytes.map fun c => formatInt (char o.signed c))
  have back : cut ((s.bytes.map fun c => formatInt (char o.signed c)).map fun item =>
      UInt8.ofInt (atoi item)) = s := by
    have same : (fun c => UInt8.ofInt (atoi (formatInt (char o.signed c)))) = id :=
      funext fun c => read_byte o.signed c
    rw [List.map_map]
    show cut (s.bytes.map fun c => UInt8.ofInt (atoi (formatInt (char o.signed c)))) = s
    rw [same, List.map_id]
    exact CString.ext (bytes_cut s.noNul)
  refine ⟨{ x with result := explode o s.bytes },
    { y with
      world
      result := cut ((s.bytes.map fun c => formatInt (char o.signed c)).map fun item =>
        UInt8.ofInt (atoi item)) }, rfl, ⟨259, explode_eq (Nat.le_refl _) o _⟩, ?_, back⟩
  show after (split o (explode o s.bytes) y) _ = _
  rw [explode, splits]
  rfl

end Frobio.Ncl
