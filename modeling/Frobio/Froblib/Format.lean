/-
This file models `BufFormatVA` of `froblib/format.c`, and shows which formats it carries out.

A format is the string up to its NUL: where the scanner stands at its end, `*s` is zero, and to go
on behind it is `overrun`. The loops are given the rounds that they may take, and are `running`
where these are not enough. Arguments that do not match the format leave it `unmatched`.
-/

import Mathlib.Data.Nat.Digits.Lemmas
import Frobio.Froblib.Buf
import Frobio.Lib.Memory

namespace Frobio.Format

open Memory
open Froblib (Buf bufAppC)

/-! ### Numerals -/

/-- The digits that are written in `qbuf`, which are never more than it holds. -/
def staticQFormatUnsignedLong (x : Nat) : List UInt8 :=
  if x > 9 then staticQFormatUnsignedLong (x / 10) ++ [UInt8.ofNat (48 + x % 10)]
  else [UInt8.ofNat (48 + x)]
termination_by x
decreasing_by omega

def staticQFormatSignedLong (x : Int) : List UInt8 :=
  if x < 0 then 45 :: staticQFormatUnsignedLong (-x).toNat else staticQFormatUnsignedLong x.toNat

/-- `UpperHexAlphabet` and `LowerHexAlphabet`. -/
def hexAlphabet (upper : Bool) (n : Nat) : UInt8 :=
  UInt8.ofNat (if n < 10 then 48 + n else if upper then 55 + n else 87 + n)

def staticQFormatLongHex (alphabet : Nat → UInt8) (x : Nat) : List UInt8 :=
  if x > 15 then staticQFormatLongHex alphabet (x / 16) ++ [alphabet (x % 16)] else [alphabet x]
termination_by x
decreasing_by omega

/-- The ways to write the numbers of a format. -/
structure Numerals where
  unsigned : Nat → List UInt8
  signed : Int → List UInt8
  hex : Bool → Nat → List UInt8

def written : Numerals where
  unsigned := staticQFormatUnsignedLong
  signed := staticQFormatSignedLong
  hex upper := staticQFormatLongHex (hexAlphabet upper)

/-! ### Arguments -/

/-- A string is the memory from the pointer on, and its length. -/
inductive Arg
  | int (x : UInt16)
  | long (x : UInt32)
  | string (memory : Nat → UInt8) (length : Nat)
  | null

def intArg : List Arg → Option (UInt16 × List Arg)
  | .int x :: args => some (x, args)
  | _ => none

def unsignedArg (longingly : Bool) : List Arg → Option (Nat × List Arg)
  | .int x :: args => if longingly then none else some (x.toNat, args)
  | .long x :: args => if longingly then some (x.toNat, args) else none
  | _ => none

def signedArg (longingly : Bool) : List Arg → Option (Int × List Arg)
  | .int x :: args => if longingly then none else some (x.toBitVec.toInt, args)
  | .long x :: args => if longingly then some (x.toBitVec.toInt, args) else none
  | _ => none

/-- The string `<NULL>` stands for the null pointer. -/
def stringArg : List Arg → Option ((Nat → UInt8) × Nat × List Arg)
  | .string memory length :: args => some (memory, length, args)
  | .null :: args => some (fun a => [60, 78, 85, 76, 76, 62].getD a 0, 6, args)
  | _ => none

/-! ### Scanning -/

structure Directive where
  fill0 : Bool
  width : Nat
  use_precision : Bool
  star : Bool
  longingly : Bool

/-- One character is stepped over if it is there. -/
def skip (c : UInt8) (s : List UInt8) : Bool × List UInt8 :=
  if s.head? = some c then (true, s.tail) else (false, s)

/-- The width is a word. -/
def scanWidth (width : Nat) : List UInt8 → Nat × List UInt8
  | [] => (width, [])
  | c :: s =>
    if 48 ≤ c ∧ c ≤ 57 then scanWidth ((10 * width + (c.toNat - 48)) % 65536) s
    else (width, c :: s)

/-- What stands between the percent sign and the letter of a conversion. -/
def scan (s : List UInt8) : Directive × List UInt8 :=
  let (fill0, s) := skip 48 s
  let (width, s) := scanWidth 0 s
  let (use_precision, s) := skip 46 s
  let (star, s) := skip 42 s
  let (longingly, s) := skip 108 s
  (⟨fill0, width, use_precision, star, longingly⟩, s)

/-! ### Conversions -/

/-- `BufAppStringQuoting` of one character. -/
def quote (x : UInt8) : List UInt8 :=
  if x = 9 then [92, 116]
  else if x = 10 then [92, 110]
  else if x = 13 then [92, 114]
  else if x = 34 ∨ x = 39 ∨ x = 92 then [92, x]
  else if 32 ≤ x ∧ x ≤ 126 then [x]
  else [92, 120, hexAlphabet false (x.toNat / 16), hexAlphabet false (x.toNat % 16)]

/-- What a conversion appends: its text, behind a gap up to the width where `n` characters are
counted for the text. -/
structure Field where
  width : Nat
  n : Nat
  text : List UInt8
  args : List Arg

/-- The digits of a number. -/
def qbuf (numerals : Numerals) (letter : UInt8) (longingly : Bool) (args : List Arg) :
    Option (List UInt8 × List Arg) :=
  if letter = 88 ∨ letter = 120 then
    (unsignedArg longingly args).map fun (x, args) => (numerals.hex (letter = 88) x, args)
  else if letter = 117 then
    (unsignedArg longingly args).map fun (x, args) => (numerals.unsigned x, args)
  else (signedArg longingly args).map fun (x, args) => (numerals.signed x, args)

/-- The switch over the letter, with the width and the precision that were found. Where there is no
gap to fill, the width is zero. -/
def convert (numerals : Numerals) (d : Directive) (numberWidth width precision : Nat)
    (letter : UInt8) (args : List Arg) : Option Field :=
  if letter = 88 ∨ letter = 120 ∨ letter = 117 ∨ letter = 100 then
    (qbuf numerals letter d.longingly args).map fun (digits, args) =>
      ⟨numberWidth, digits.length, digits, args⟩
  else if letter = 115 then
    (stringArg args).map fun (x, length, args) =>
      let precision := if precision = 0 then length else precision
      -- `BufAppS` is given an `int`, and takes the whole string where that is negative
      ⟨width, precision, load x 0 (if precision < 32768 then precision else length), args⟩
  else if letter = 113 then
    (stringArg args).map fun (x, length, args) =>
      let precision := if precision = 0 then length else precision
      ⟨0, 0, 34 :: (load x 0 precision).flatMap quote ++ [34], args⟩
  else if letter = 99 then
    (intArg args).map fun (x, args) =>
      let ch := x.toUInt8
      ⟨0, 0, if 32 ≤ ch ∧ ch ≤ 126 then [ch] else 60 :: numerals.unsigned ch.toNat ++ [62], args⟩
  else some ⟨0, 0, [letter], args⟩

/-- A star takes an argument for the width or the precision. -/
def field (numerals : Numerals) (d : Directive) (width : Nat) (letter : UInt8) (args : List Arg) :
    Option Field :=
  if d.star then
    match intArg args with
    | none => none
    | some (x, args) =>
      if d.use_precision then convert numerals d width d.width x.toNat letter args
      else convert numerals d x.toNat x.toNat 0 letter args
  else convert numerals d width d.width 0 letter args

/-- The loop of `staticBufFillGap`, which counts in a byte. -/
def fillLoop (gap : Nat) (fill0 : Bool) : Nat → UInt8 → Buf → Option Buf
  | 0, _, _ => none
  | rounds + 1, i, buf =>
    if i.toNat < gap then fillLoop gap fill0 rounds (i + 1) (bufAppC buf (if fill0 then 48 else 32))
    else some buf

def staticBufFillGap (rounds : Nat) (buf : Buf) (width n : Nat) (fill0 : Bool) : Option Buf :=
  if width > n then fillLoop (width - n) fill0 rounds 0 buf else some buf

inductive Ended
  | running
  | unmatched
  | overrun
  | done (buf : Buf)

/-- The loop of `BufFormatVA`. At the end of the format, where the letter should be, the NUL is
appended and stepped over. -/
def formatLoop (rounds : Nat) : Nat → List UInt8 → List Arg → Buf → Ended
  | 0, _, _, _ => .running
  | _ + 1, [], _, buf => .done buf
  | left + 1, c :: s, args, buf =>
    if c ≠ 37 then formatLoop rounds left s args (bufAppC buf c)
    else
      match scan s with
      | (_, []) => .overrun
      | (d, letter :: s) =>
        match field written d d.width letter args with
        | none => .unmatched
        | some f =>
          match staticBufFillGap rounds buf f.width f.n d.fill0 with
          | none => .running
          | some buf => formatLoop rounds left s f.args (buf ++ f.text)

def BufFormatVA (rounds : Nat) (format : List UInt8) (args : List Arg) (buf : Buf) : Ended :=
  formatLoop rounds rounds format args buf

/-! ### What a format meant -/

/-- A number in decimal or hexadecimal. -/
def numeral (base : Nat) (digit : Nat → UInt8) (x : Nat) : List UInt8 :=
  if x = 0 then [digit 0] else ((Nat.digits base x).map digit).reverse

def decimal (x : Nat) : List UInt8 := numeral 10 (fun n => UInt8.ofNat (48 + n)) x

def usual : Numerals where
  unsigned := decimal
  signed x := if x < 0 then 45 :: decimal x.natAbs else decimal x.natAbs
  hex upper := numeral 16 (hexAlphabet upper)

/-- A part of a format. The width is the number as it is written. -/
inductive Item
  | plain (c : UInt8)
  | conversion (d : Directive) (width : Nat) (letter : UInt8)
  | truncated

/-- The number that the digits at the beginning make. -/
def number (width : Nat) : List UInt8 → Nat
  | [] => width
  | c :: s => if 48 ≤ c ∧ c ≤ 57 then number (10 * width + (c.toNat - 48)) s else width

/-- The parts of a format of no more than so many characters. -/
def itemsUpTo : Nat → List UInt8 → List Item
  | 0, _ => []
  | _ + 1, [] => []
  | left + 1, c :: s =>
    if c ≠ 37 then .plain c :: itemsUpTo left s
    else
      match scan s with
      | (_, []) => [.truncated]
      | (d, letter :: rest) => .conversion d (number 0 (skip 48 s).2) letter :: itemsUpTo left rest

def items (format : List UInt8) : List Item := itemsUpTo format.length format

/-- The text of a field behind its gap. -/
def Field.padded (f : Field) (fill0 : Bool) : List UInt8 :=
  List.replicate (f.width - f.n) (if fill0 then 48 else 32) ++ f.text

/-- What the format and its arguments say, if they match. A truncated conversion says nothing. -/
def meaning : List Item → List Arg → Option (List UInt8)
  | [], _ => some []
  | .plain c :: later, args => (meaning later args).map (c :: ·)
  | .conversion d width letter :: later, args =>
    match field usual d width letter args with
    | none => none
    | some f => (meaning later f.args).map (f.padded d.fill0 ++ ·)
  | .truncated :: _, _ => some []

/-- No conversion is truncated, and no gap has more than 255 characters. -/
def Fits : List Item → List Arg → Prop
  | [], _ => True
  | .plain _ :: later, args => Fits later args
  | .conversion d width letter :: later, args =>
    match field usual d width letter args with
    | none => True
    | some f => f.width - f.n < 256 ∧ Fits later f.args
  | .truncated :: _, _ => False

/-! ### The digits are the usual ones -/

theorem numeral_of_lt {base x : Nat} (below : x < base) (digit : Nat → UInt8) :
    numeral base digit x = [digit x] := by
  rw [numeral]
  split
  · rename_i zero
    rw [zero]
  · rename_i nonzero
    rw [Nat.digits_of_lt base x nonzero below]
    rfl

theorem numeral_of_le {base x : Nat} (large : 1 < base) (above : base ≤ x) (digit : Nat → UInt8) :
    numeral base digit x = numeral base digit (x / base) ++ [digit (x % base)] := by
  have positive : 0 < x := by omega
  have more : x / base ≠ 0 := Nat.ne_of_gt (Nat.div_pos above (by omega))
  rw [numeral, numeral, if_neg (Nat.ne_of_gt positive), if_neg more,
    Nat.digits_def' large positive, List.map_cons, List.reverse_cons]

theorem staticQFormatUnsignedLong_eq (x : Nat) : staticQFormatUnsignedLong x = decimal x := by
  induction x using Nat.strong_induction_on with
  | _ x inductionHypothesis =>
    rw [staticQFormatUnsignedLong, decimal]
    split
    · rw [inductionHypothesis (x / 10) (by omega), decimal,
        @numeral_of_le 10 x (by decide) (by omega)]
    · rw [numeral_of_lt (by omega)]

theorem staticQFormatLongHex_eq (alphabet : Nat → UInt8) (x : Nat) :
    staticQFormatLongHex alphabet x = numeral 16 alphabet x := by
  induction x using Nat.strong_induction_on with
  | _ x inductionHypothesis =>
    rw [staticQFormatLongHex]
    split
    · rw [inductionHypothesis (x / 16) (by omega), @numeral_of_le 16 x (by decide) (by omega)]
    · rw [numeral_of_lt (by omega)]

theorem written_eq_usual : written = usual := by
  rw [written, usual]
  congr 1
  · funext x
    exact staticQFormatUnsignedLong_eq x
  · funext x
    rw [staticQFormatSignedLong, staticQFormatUnsignedLong_eq, staticQFormatUnsignedLong_eq]
    by_cases negative : x < 0
    · have same : (-x).toNat = x.natAbs := by omega
      rw [if_pos negative, if_pos negative, same]
    · have same : x.toNat = x.natAbs := by omega
      rw [if_neg negative, if_neg negative, same]
  · funext upper x
    exact staticQFormatLongHex_eq _ x

/-- A number of 32 bits has few digits. -/
theorem length_numeral_le {base count x : Nat} (large : 1 < base) (some_ : 0 < count)
    (small : x < base ^ count) (digit : Nat → UInt8) : (numeral base digit x).length ≤ count := by
  rw [numeral]
  split
  · exact some_
  · rw [List.length_reverse, List.length_map]
    exact (Nat.digits_length_le_iff large x).mpr small

/-! ### Gaps -/

theorem fillLoop_some {gap rounds : Nat} {fill0 : Bool} {i : UInt8} {buf buf' : Buf}
    (filled : fillLoop gap fill0 rounds i buf = some buf') :
    gap < 256 ∧ buf' = buf ++ List.replicate (gap - i.toNat) (if fill0 then 48 else 32) := by
  induction rounds generalizing i buf with
  | zero => cases filled
  | succ rounds inductionHypothesis =>
    rw [fillLoop] at filled
    have byte := i.toNat_lt
    have next : (i + 1).toNat = (i.toNat + 1) % 256 := UInt8.toNat_add i 1
    split at filled
    · rename_i more
      obtain ⟨small, filled⟩ := inductionHypothesis filled
      refine ⟨small, ?_⟩
      have step : gap - i.toNat = gap - (i + 1).toNat + 1 := by omega
      rw [filled, step, List.replicate_succ, bufAppC, List.append_assoc]
      rfl
    · cases filled
      have done : gap - i.toNat = 0 := by omega
      rw [done]
      exact ⟨by omega, (List.append_nil _).symm⟩

theorem exists_fillLoop {gap : Nat} (small : gap < 256) (fill0 : Bool) {rounds : Nat} {i : UInt8}
    (enough : gap - i.toNat < rounds) (buf : Buf) :
    ∃ buf', fillLoop gap fill0 rounds i buf = some buf' := by
  induction rounds generalizing i buf with
  | zero => exact absurd enough (Nat.not_lt_zero _)
  | succ rounds inductionHypothesis =>
    rw [fillLoop]
    split
    · rename_i more
      have next : (i + 1).toNat = (i.toNat + 1) % 256 := UInt8.toNat_add i 1
      exact inductionHypothesis (by omega) _
    · exact ⟨_, rfl⟩

theorem staticBufFillGap_some {rounds width n : Nat} {fill0 : Bool} {buf buf' : Buf}
    (filled : staticBufFillGap rounds buf width n fill0 = some buf') :
    width - n < 256 ∧ buf' = buf ++ List.replicate (width - n) (if fill0 then 48 else 32) := by
  rw [staticBufFillGap] at filled
  split at filled
  · exact fillLoop_some filled
  · cases filled
    have none_ : width - n = 0 := by omega
    rw [none_]
    exact ⟨by decide, (List.append_nil _).symm⟩

theorem staticBufFillGap_of_small {rounds width n : Nat} (small : width - n < 256)
    (enough : 256 ≤ rounds) (fill0 : Bool) (buf : Buf) :
    staticBufFillGap rounds buf width n fill0 =
      some (buf ++ List.replicate (width - n) (if fill0 then 48 else 32)) := by
  have filled : ∃ buf', staticBufFillGap rounds buf width n fill0 = some buf' := by
    rw [staticBufFillGap]
    split
    · exact exists_fillLoop small fill0 (by
        show width - n - 0 < rounds
        omega) buf
    · exact ⟨buf, rfl⟩
  obtain ⟨buf', filled⟩ := filled
  rw [filled, (staticBufFillGap_some filled).2]

/-! ### Fields -/

/-- The field with its width as a word. -/
def Field.word (f : Field) : Field := { f with width := f.width % 65536 }

theorem unsignedArg_lt {longingly : Bool} {args args' : List Arg} {x : Nat}
    (given : unsignedArg longingly args = some (x, args')) : x < 4294967296 := by
  cases args with
  | nil => cases given
  | cons arg args =>
    cases arg with
    | int word =>
      have small := word.toNat_lt
      cases longingly with
      | true => cases given
      | false =>
        cases given
        omega
    | long quad =>
      have small := quad.toNat_lt
      cases longingly with
      | true =>
        cases given
        omega
      | false => cases given
    | string memory length => cases given
    | null => cases given

theorem signedArg_lt {longingly : Bool} {args args' : List Arg} {x : Int}
    (given : signedArg longingly args = some (x, args')) : x.natAbs < 4294967296 := by
  cases args with
  | nil => cases given
  | cons arg args =>
    cases arg with
    | int word =>
      have low := BitVec.le_two_mul_toInt (x := word.toBitVec)
      have high := BitVec.two_mul_toInt_lt (x := word.toBitVec)
      cases longingly with
      | true => cases given
      | false =>
        cases given
        omega
    | long quad =>
      have low := BitVec.le_two_mul_toInt (x := quad.toBitVec)
      have high := BitVec.two_mul_toInt_lt (x := quad.toBitVec)
      cases longingly with
      | true =>
        cases given
        omega
      | false => cases given
    | string memory length => cases given
    | null => cases given

theorem qbuf_length {letter : UInt8} {longingly : Bool} {args args' : List Arg}
    {digits : List UInt8} (given : qbuf usual letter longingly args = some (digits, args')) :
    digits.length < 256 := by
  rw [qbuf] at given
  split at given
  · obtain ⟨⟨x, rest⟩, arg, same⟩ := Option.map_eq_some_iff.mp given
    have small := unsignedArg_lt arg
    have few := @length_numeral_le 16 8 x (by decide) (by decide) (by norm_num; omega)
      (hexAlphabet (letter = 88))
    cases same
    exact lt_of_le_of_lt few (by decide)
  · split at given
    · obtain ⟨⟨x, rest⟩, arg, same⟩ := Option.map_eq_some_iff.mp given
      have small := unsignedArg_lt arg
      have few := @length_numeral_le 10 10 x (by decide) (by decide) (by norm_num; omega)
        fun n => UInt8.ofNat (48 + n)
      cases same
      exact lt_of_le_of_lt few (by decide)
    · obtain ⟨⟨x, rest⟩, arg, same⟩ := Option.map_eq_some_iff.mp given
      have small := signedArg_lt arg
      have few := @length_numeral_le 10 10 x.natAbs (by decide) (by decide) (by norm_num; omega)
        fun n => UInt8.ofNat (48 + n)
      cases same
      show (if x < 0 then 45 :: decimal x.natAbs else decimal x.natAbs).length < 256
      have bound : (decimal x.natAbs).length ≤ 10 := few
      split
      · rw [List.length_cons]
        omega
      · omega

theorem convert_word {d : Directive} {width : Nat} (word : width < 65536)
    (numberWidth precision : Nat) (letter : UInt8) (args : List Arg) :
    convert usual d (numberWidth % 65536) width precision letter args =
      (convert usual d numberWidth width precision letter args).map Field.word := by
  have same : width % 65536 = width := Nat.mod_eq_of_lt word
  rw [convert, convert]
  split
  · rw [Option.map_map]
    rfl
  · split
    · rw [Option.map_map]
      refine congrArg (Option.map · (stringArg args)) (funext fun ⟨x, length, rest⟩ => ?_)
      exact congrArg (Field.mk · _ _ _) same.symm
    · split
      · rw [Option.map_map]
        rfl
      · split
        · rw [Option.map_map]
          rfl
        · rfl

theorem convert_large {d : Directive} {numberWidth width precision : Nat} (word : width < 65536)
    {letter : UInt8} {args : List Arg} {f : Field}
    (given : convert usual d numberWidth width precision letter args = some f)
    (large : 65536 ≤ f.width) : f.n < 256 := by
  rw [convert] at given
  split at given
  · obtain ⟨⟨digits, rest⟩, some_, same⟩ := Option.map_eq_some_iff.mp given
    cases same
    exact qbuf_length some_
  · split at given
    · obtain ⟨⟨x, length, rest⟩, _, same⟩ := Option.map_eq_some_iff.mp given
      cases same
      exact absurd large (not_le.mpr word)
    · split at given
      · obtain ⟨⟨x, length, rest⟩, _, same⟩ := Option.map_eq_some_iff.mp given
        cases same
        exact absurd large (Nat.not_le.mpr (by decide : 0 < 65536))
      · split at given
        · obtain ⟨⟨x, rest⟩, _, same⟩ := Option.map_eq_some_iff.mp given
          cases same
          exact absurd large (Nat.not_le.mpr (by decide : 0 < 65536))
        · cases given
          exact absurd large (Nat.not_le.mpr (by decide : 0 < 65536))

/-- The code sees a width as a word, and otherwise the same field. -/
theorem field_word (d : Directive) (width : Nat) (same : d.width = width % 65536) (letter : UInt8)
    (args : List Arg) :
    field usual d d.width letter args = (field usual d width letter args).map Field.word := by
  have word : d.width < 65536 := same ▸ Nat.mod_lt _ (by decide)
  rw [field, field]
  split
  · cases intArg args with
    | none => rfl
    | some taken =>
      obtain ⟨x, rest⟩ := taken
      dsimp only
      split
      · rw [← convert_word word, ← same]
      · have small := x.toNat_lt
        rw [← convert_word small, Nat.mod_eq_of_lt small]
  · rw [← convert_word word, ← same]

/-- A width that is no word belongs to a number, which is shorter. -/
theorem field_large {d : Directive} {width : Nat} (word : d.width < 65536) {letter : UInt8}
    {args : List Arg} {f : Field} (given : field usual d width letter args = some f)
    (large : 65536 ≤ f.width) : f.n < 256 := by
  rw [field] at given
  split at given
  · split at given
    · cases given
    · rename_i x rest _
      split at given
      · exact convert_large word given large
      · exact convert_large x.toNat_lt given large
  · exact convert_large word given large

/-! ### Scanning -/

theorem scanWidth_eq (width : Nat) (s : List UInt8) :
    (scanWidth (width % 65536) s).1 = number width s % 65536 := by
  induction s generalizing width with
  | nil => rfl
  | cons c s inductionHypothesis =>
    rw [scanWidth, number]
    split
    · rw [← inductionHypothesis]
      congr 2
      omega
    · rfl

theorem scan_width (s : List UInt8) :
    (scan s).1.width = number 0 (skip 48 s).2 % 65536 := scanWidth_eq 0 _

theorem length_skip (c : UInt8) (s : List UInt8) : (skip c s).2.length ≤ s.length := by
  rw [skip]
  split
  · rw [List.length_tail]
    exact Nat.sub_le _ _
  · exact Nat.le_refl _

theorem length_scanWidth (width : Nat) (s : List UInt8) :
    (scanWidth width s).2.length ≤ s.length := by
  induction s generalizing width with
  | nil => exact Nat.le_refl _
  | cons c s inductionHypothesis =>
    rw [scanWidth]
    split
    · exact (inductionHypothesis _).trans (Nat.le_succ _)
    · exact Nat.le_refl _

theorem length_scan (s : List UInt8) : (scan s).2.length ≤ s.length :=
  (length_skip _ _).trans <| (length_skip _ _).trans <| (length_skip _ _).trans <|
    (length_scanWidth _ _).trans (length_skip _ _)

/-! ### Every format -/

theorem length_padded (f : Field) (fill0 : Bool) :
    (f.padded fill0).length = f.width - f.n + f.text.length := by
  rw [Field.padded, List.length_append, List.length_replicate]

theorem convert_number {numerals : Numerals} {d : Directive} {numberWidth width precision : Nat}
    {letter : UInt8} (number : letter = 88 ∨ letter = 120 ∨ letter = 117 ∨ letter = 100)
    {args : List Arg} {f : Field}
    (given : convert numerals d numberWidth width precision letter args = some f) :
    f.width = numberWidth ∧ f.n = f.text.length := by
  rw [convert, if_pos number] at given
  obtain ⟨⟨digits, rest⟩, _, rfl⟩ := Option.map_eq_some_iff.mp given
  exact ⟨rfl, rfl⟩

/-- A number has the length of its numeral, or that of its width if it is more. -/
theorem length_padded_number {numerals : Numerals} {d : Directive} {width : Nat} {letter : UInt8}
    (number : letter = 88 ∨ letter = 120 ∨ letter = 117 ∨ letter = 100) (star : d.star = false)
    {args : List Arg} {f : Field} (given : field numerals d width letter args = some f) :
    (f.padded d.fill0).length = max width f.text.length := by
  rw [field, if_neg (by rw [star]; exact Bool.false_ne_true)] at given
  obtain ⟨wide, long⟩ := convert_number number given
  rw [length_padded, wide, long]
  omega

/-- Formats that are carried out append no more than they say, and if as much, they fit. -/
theorem formatLoop_done {rounds left : Nat} {format : List UInt8} {count : Nat}
    (counted : format.length ≤ count) {args : List Arg} {buf buf' : Buf} {out : List UInt8}
    (meant : meaning (itemsUpTo count format) args = some out)
    (done : formatLoop rounds left format args buf = .done buf') :
    ∃ out', buf' = buf ++ out' ∧ out'.length ≤ out.length ∧
      (out'.length = out.length → Fits (itemsUpTo count format) args) := by
  induction left generalizing format count args buf out with
  | zero => cases done
  | succ left inductionHypothesis =>
    cases format with
    | nil =>
      cases done
      refine ⟨[], (List.append_nil _).symm, Nat.zero_le _, fun _ => ?_⟩
      cases count with
      | zero => trivial
      | succ count => trivial
    | cons c s =>
      cases count with
      | zero => exact absurd counted (Nat.not_succ_le_zero _)
      | succ count =>
        rw [itemsUpTo] at meant ⊢
        rw [formatLoop] at done
        by_cases literal : c ≠ 37
        · rw [if_pos literal] at meant done ⊢
          obtain ⟨rest, later, rfl⟩ := Option.map_eq_some_iff.mp meant
          obtain ⟨out', rfl, short, fits⟩ :=
            inductionHypothesis (Nat.le_of_succ_le_succ counted) later done
          refine ⟨c :: out', ?_, Nat.succ_le_succ short, fun same => fits (Nat.succ.inj same)⟩
          rw [bufAppC, List.append_assoc]
          rfl
        · rw [if_neg literal] at meant done ⊢
          have fewer := length_scan s
          have width := scan_width s
          split at done
          · cases done
          rename_i d letter rest scanned
          rw [scanned] at fewer width meant
          dsimp only at fewer width meant ⊢
          rw [meaning] at meant
          rw [Fits]
          split at done
          · cases done
          rename_i f given
          split at done
          · cases done
          rename_i buf₁ filled
          rw [written_eq_usual, field_word d _ width] at given
          obtain ⟨f', given', rfl⟩ := Option.map_eq_some_iff.mp given
          rw [given'] at meant ⊢
          obtain ⟨out₁, later, rfl⟩ := Option.map_eq_some_iff.mp meant
          obtain ⟨small, rfl⟩ := staticBufFillGap_some filled
          have within : rest.length ≤ count := by
            rw [List.length_cons] at fewer counted
            omega
          obtain ⟨out', rfl, short, fits⟩ := inductionHypothesis within later done
          have word : d.width < 65536 := width ▸ Nat.mod_lt _ (by decide)
          have large := field_large word given'
          have wide : (f'.word.padded d.fill0).length =
              f'.width % 65536 - f'.n + f'.text.length := length_padded f'.word d.fill0
          have wide' := length_padded f' d.fill0
          have small' : f'.width % 65536 - f'.n < 256 := small
          refine ⟨f'.word.padded d.fill0 ++ out', ?_, ?_, fun same => ?_⟩
          · rw [Field.padded, List.append_assoc, List.append_assoc, List.append_assoc]
          · rw [List.length_append, List.length_append]
            omega
          · rw [List.length_append, List.length_append] at same
            exact ⟨by omega, fits (by omega)⟩

/-- Formats that fit are carried out in as many rounds as they have characters. -/
theorem formatLoop_of_fits {rounds left : Nat} (bytes : 256 ≤ rounds) {format : List UInt8}
    {count : Nat} (counted : format.length ≤ count) (enough : format.length < left)
    {args : List Arg} {out : List UInt8}
    (meant : meaning (itemsUpTo count format) args = some out)
    (fits : Fits (itemsUpTo count format) args) (buf : Buf) :
    formatLoop rounds left format args buf = .done (buf ++ out) := by
  induction left generalizing format count args buf out with
  | zero => exact absurd enough (Nat.not_lt_zero _)
  | succ left inductionHypothesis =>
    cases format with
    | nil =>
      have nothing : out = [] := by
        cases count with
        | zero => exact (Option.some.inj meant).symm
        | succ count => exact (Option.some.inj meant).symm
      rw [nothing, List.append_nil]
      rfl
    | cons c s =>
      cases count with
      | zero => exact absurd counted (Nat.not_succ_le_zero _)
      | succ count =>
        rw [itemsUpTo] at meant fits
        rw [formatLoop]
        by_cases literal : c ≠ 37
        · rw [if_pos literal] at meant fits ⊢
          obtain ⟨rest, later, rfl⟩ := Option.map_eq_some_iff.mp meant
          rw [inductionHypothesis (Nat.le_of_succ_le_succ counted) (Nat.lt_of_succ_lt_succ enough)
            later fits, bufAppC, List.append_assoc]
          rfl
        · rw [if_neg literal] at meant fits ⊢
          have fewer := length_scan s
          have width := scan_width s
          split at meant
          · rename_i truncated
            rw [truncated] at fits
            exact absurd fits id
          rename_i d letter rest scanned
          rw [scanned] at fewer width fits
          dsimp only at fewer width fits ⊢
          rw [meaning] at meant
          rw [Fits] at fits
          split at meant
          · cases meant
          rename_i f given
          rw [given] at fits
          obtain ⟨small, fits⟩ := fits
          obtain ⟨out₁, later, rfl⟩ := Option.map_eq_some_iff.mp meant
          have word : d.width < 65536 := width ▸ Nat.mod_lt _ (by decide)
          have large := field_large word given
          -- a width that is no word leaves a gap that does not fit
          have same : f.width % 65536 = f.width := Nat.mod_eq_of_lt (by omega)
          have given' : field written d d.width letter args = some f := by
            rw [written_eq_usual, field_word d _ width, given, Option.map_some, Field.word, same]
          rw [given']
          dsimp only
          rw [staticBufFillGap_of_small small bytes]
          dsimp only
          rw [List.length_cons] at counted enough
          rw [List.length_cons] at fewer
          rw [inductionHypothesis (by omega) (by omega) later fits, Field.padded]
          rw [List.append_assoc, List.append_assoc, List.append_assoc]

/-- A format whose arguments match it ends with what it says, if and only if no conversion is
truncated and no gap has more than 255 characters. The numbers in it have the usual numerals. -/
theorem bufFormatVA_iff {format : List UInt8} {args : List Arg} {out : List UInt8}
    (matching : meaning (items format) args = some out) (buf : Buf) :
    (∃ rounds, BufFormatVA rounds format args buf = .done (buf ++ out)) ↔
      Fits (items format) args := by
  constructor
  · rintro ⟨rounds, done⟩
    obtain ⟨out', same, _, fits⟩ := formatLoop_done (Nat.le_refl _) matching done
    exact fits (congrArg List.length (List.append_cancel_left same)).symm
  · intro fits
    exact ⟨256 + format.length, formatLoop_of_fits (Nat.le_add_right _ _) (Nat.le_refl _)
      (by omega) matching fits buf⟩

/-- `%05d` of minus five, where the sign comes behind the zeros. -/
theorem bufFormatVA_iff_negative :
    (∃ rounds, BufFormatVA rounds [37, 48, 53, 100] [.int 65531] [] =
      .done ([] ++ [48, 48, 48, 45, 53])) ↔ Fits (items [37, 48, 53, 100]) [.int 65531] :=
  bufFormatVA_iff (by decide +kernel) []

/-- `%300d` never ends, as no byte counts to 299. -/
theorem not_bufFormatVA_wide :
    meaning (items [37, 51, 48, 48, 100]) [.int 5] = some (List.replicate 299 32 ++ [53]) ∧
      ¬ ∃ rounds buf, BufFormatVA rounds [37, 51, 48, 48, 100] [.int 5] [] = .done buf := by
  refine ⟨by decide +kernel, ?_⟩
  rintro ⟨rounds, buf, done⟩
  cases rounds with
  | zero => cases done
  | succ rounds =>
    have given : field written ⟨false, 300, false, false, false⟩ 300 100 [.int 5] =
        some ⟨300, 1, [53], []⟩ := by
      rw [written_eq_usual]
      rfl
    have scanned : scan [51, 48, 48, 100] = (⟨false, 300, false, false, false⟩, [100]) := rfl
    rw [BufFormatVA, formatLoop, if_neg (by decide), scanned] at done
    dsimp only at done
    rw [given] at done
    dsimp only at done
    split at done
    · cases done
    · rename_i filled
      exact absurd (staticBufFillGap_some filled).1 (by decide)

end Frobio.Format
