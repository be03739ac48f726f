/-
This file models how froblib reads numbers: `NyParseDottedDecimalQuad` of `nylib.c`, with what
`NyFormatDottedDecimalQuad` writes, and `prefixed_atoi` of `std.c`.

A string is the list of its bytes, without the NUL at its end. Numbers are kept in words of 16
bits, so that a long numeral wraps; and an empty numeral reads as zero. At `Verbosity` 0, which
every command takes as `-v0`, a fatal error is not even noticed.
-/

import Frobio.Lib.Numeral
import Frobio.Froblib.Format

namespace Frobio.Numerals

open Numeral
open Format (Arg Ended decimal numeral)

/-! ### Fatal errors -/

def LLFatal : UInt8 := 1

/-- The level of `Verbosity` if no flag sets it. -/
def LLInfo : UInt8 := 5

/-- Does `LogFatal` end the program? If not, it does nothing. -/
def LogFatal (Verbosity : UInt8) : Bool := LLFatal ≤ Verbosity

theorem logFatal_iff {Verbosity : UInt8} : LogFatal Verbosity = true ↔ Verbosity ≠ 0 := by
  rw [LogFatal, decide_eq_true_iff]
  constructor
  · rintro loud rfl
    exact absurd loud (by decide)
  · intro nonzero
    have positive : Verbosity.toNat ≠ 0 := fun zero => nonzero (UInt8.toNat_inj.mp zero)
    exact UInt8.le_iff_toNat_le.mpr (Nat.one_le_iff_ne_zero.mpr positive)

/-! ### Dotted quads -/

/-- `'0' <= ch && ch <= '9'`, and what the digit counts. -/
def decimalDigit (ch : UInt8) : Option Nat :=
  if 48 ≤ ch ∧ ch ≤ 57 then some (ch.toNat - 48) else none

def NyParseDecimalWord (s : List UInt8) : Nat × List UInt8 := read decimalDigit 10 65536 0 s

/-- There is no result if `LogFatal` ends the program. -/
def NyCheckByte (Verbosity : UInt8) (a : Nat) : Option UInt8 :=
  if a > 255 ∧ LogFatal Verbosity then none else some (UInt8.ofNat a)

/-- Here the pointer is not at a dot. -/
def no_dot (Verbosity : UInt8) (s : List UInt8) : Option (List UInt8 × List UInt8) :=
  if LogFatal Verbosity then none else some ([0, 0, 0, 0], s)

/-- A dot is stepped over, and what follows is done; or there is none. -/
def stepDot (Verbosity : UInt8) (s : List UInt8)
    (next : List UInt8 → Option (List UInt8 × List UInt8)) : Option (List UInt8 × List UInt8) :=
  if s.head? = some 46 then next s.tail else no_dot Verbosity s

/-- The four bytes, and where the pointer is then. -/
def NyParseDottedDecimalQuad (Verbosity : UInt8) (s : List UInt8) :
    Option (List UInt8 × List UInt8) :=
  let (a, s) := NyParseDecimalWord s
  stepDot Verbosity s fun s =>
    let (b, s) := NyParseDecimalWord s
    stepDot Verbosity s fun s =>
      let (c, s) := NyParseDecimalWord s
      stepDot Verbosity s fun s =>
        let (d, s) := NyParseDecimalWord s
        (NyCheckByte Verbosity a).bind fun a =>
          (NyCheckByte Verbosity b).bind fun b =>
            (NyCheckByte Verbosity c).bind fun c =>
              (NyCheckByte Verbosity d).map fun d => ([a, b, c, d], s)

/-- The format `%d.%d.%d.%d`. -/
def quadFormat : List UInt8 := [37, 100, 46, 37, 100, 46, 37, 100, 46, 37, 100]

def NyFormatDottedDecimalQuad (rounds : Nat) (addr : List UInt8) : Ended :=
  Format.BufFormatVA rounds quadFormat (addr.map fun p => .int p.toUInt16) []

/-- Numerals that are separated by dots. -/
def dotted (numerals : List (List UInt8)) : List UInt8 := [46].intercalate numerals

/-- The string begins with four runs of digits, which may be empty, separated by single dots. -/
structure Runs (s : List UInt8) (numerals : List (List UInt8)) (rest : List UInt8) : Prop where
  four : numerals.length = 4
  digits : ∀ n ∈ numerals, Digits decimalDigit n
  split : s = dotted numerals ++ rest
  ends : Ends decimalDigit rest

/-- The value of a decimal numeral. -/
def decimalValue (n : List UInt8) : Nat := value decimalDigit 10 n

/-- The string begins with a dotted quad, which denotes these bytes. -/
def Denotes (s quad rest : List UInt8) : Prop :=
  ∃ numerals, Runs s numerals rest ∧ (∀ n ∈ numerals, n ≠ [] ∧ decimalValue n ≤ 255) ∧
    quad = numerals.map fun n => UInt8.ofNat (decimalValue n)

/-- If the numbers look like bytes when they are reduced to words, they are numerals of bytes. -/
def Plain (s : List UInt8) : Prop :=
  ∀ numerals rest, Runs s numerals rest → (∀ n ∈ numerals, decimalValue n % 65536 ≤ 255) →
    ∀ n ∈ numerals, n ≠ [] ∧ decimalValue n ≤ 255

/-- Where fatal errors are not noticed, the string has to begin with a dotted quad. -/
def Guarded (Verbosity : UInt8) (s : List UInt8) : Prop :=
  if Verbosity = 0 then ∃ quad rest, Denotes s quad rest else Plain s

/-! ### Reading a quad -/

/-- Words with a dot in front of each one but the first. -/
def readWords : Nat → List UInt8 → Option (List Nat × List UInt8)
  | 0, s => some ([(NyParseDecimalWord s).1], (NyParseDecimalWord s).2)
  | count + 1, s =>
    if (NyParseDecimalWord s).2.head? = some 46 then
      (readWords count (NyParseDecimalWord s).2.tail).map fun (words, rest) =>
        ((NyParseDecimalWord s).1 :: words, rest)
    else none

/-- The words are checked, or there is no dot where one should be. -/
theorem nyParseDottedDecimalQuad_cases (Verbosity : UInt8) (s : List UInt8) :
    (∃ words rest, readWords 3 s = some (words, rest) ∧ NyParseDottedDecimalQuad Verbosity s =
      (words.mapM (NyCheckByte Verbosity)).map fun quad => (quad, rest)) ∨
    (readWords 3 s = none ∧ ∃ s', NyParseDottedDecimalQuad Verbosity s = no_dot Verbosity s') := by
  simp only [NyParseDottedDecimalQuad, stepDot, readWords]
  by_cases first : (NyParseDecimalWord s).2.head? = some 46
  · generalize (NyParseDecimalWord s).2.tail = s₁ at *
    simp only [if_pos first]
    by_cases second : (NyParseDecimalWord s₁).2.head? = some 46
    · generalize (NyParseDecimalWord s₁).2.tail = s₂ at *
      simp only [if_pos second]
      by_cases third : (NyParseDecimalWord s₂).2.head? = some 46
      · simp only [if_pos third]
        refine .inl ⟨_, _, rfl, ?_⟩
        simp [List.mapM_cons, Option.map_eq_bind, Option.bind_assoc]
      · simp only [if_neg third]
        exact .inr ⟨rfl, _, rfl⟩
    · simp only [if_neg second]
      exact .inr ⟨rfl, _, rfl⟩
  · simp only [if_neg first]
    exact .inr ⟨trivial, _, rfl⟩

theorem dotted_singleton (n : List UInt8) : dotted [n] = n := List.append_nil n

theorem dotted_cons (n : List UInt8) {numerals : List (List UInt8)} (more : numerals ≠ []) :
    dotted (n :: numerals) = n ++ 46 :: dotted numerals := by
  cases numerals with
  | nil => exact absurd rfl more
  | cons m numerals =>
    rw [dotted, dotted, List.intercalate, List.intersperse_cons_cons, List.flatten_cons,
      List.flatten_cons, ← List.intercalate]
    rfl

theorem ends_dot (s : List UInt8) : Ends decimalDigit (46 :: s) := ends_cons rfl s

theorem nyParseDecimalWord_append {n rest : List UInt8} (digits : Digits decimalDigit n)
    (ends : Ends decimalDigit rest) :
    NyParseDecimalWord (n ++ rest) = (decimalValue n % 65536, rest) :=
  read_zero_append digits ends

/-- What is read is as many runs of digits, separated by dots. -/
theorem readWords_iff {count : Nat} {s rest : List UInt8} {words : List Nat} :
    readWords count s = some (words, rest) ↔
      ∃ numerals : List (List UInt8), numerals.length = count + 1 ∧
        (∀ n ∈ numerals, Digits decimalDigit n) ∧ s = dotted numerals ++ rest ∧
        Ends decimalDigit rest ∧ words = numerals.map fun n => decimalValue n % 65536 := by
  induction count generalizing s words with
  | zero =>
    rw [readWords, Option.some_inj, Prod.mk.injEq]
    constructor
    · rintro ⟨rfl, rfl⟩
      obtain ⟨n, rest, rfl, digits, ends⟩ := exists_split decimalDigit s
      rw [nyParseDecimalWord_append digits ends]
      exact ⟨[n], rfl, fun m member => List.mem_singleton.mp member ▸ digits,
        by rw [dotted_singleton], ends, rfl⟩
    · rintro ⟨numerals, one, digits, rfl, ends, rfl⟩
      obtain ⟨n, rfl⟩ := List.length_eq_one_iff.mp one
      rw [dotted_singleton, nyParseDecimalWord_append (digits n List.mem_cons_self) ends]
      exact ⟨rfl, rfl⟩
  | succ count inductionHypothesis =>
    rw [readWords]
    constructor
    · intro read
      split at read
      case isFalse => cases read
      rename_i dot
      obtain ⟨⟨words', rest'⟩, later, same⟩ := Option.map_eq_some_iff.mp read
      rw [Prod.mk.injEq] at same
      obtain ⟨rfl, rfl⟩ := same
      obtain ⟨numerals, length, digits, tail, ends, rfl⟩ := inductionHypothesis.mp later
      obtain ⟨n, front, rfl, here, stops⟩ := exists_split decimalDigit s
      rw [nyParseDecimalWord_append here stops] at dot tail ⊢
      have after : front = 46 :: (dotted numerals ++ rest') :=
        (List.cons_head?_tail dot).symm.trans (congrArg (46 :: ·) tail)
      rw [after]
      refine ⟨n :: numerals, congrArg Nat.succ length, ?_, ?_, ends, rfl⟩
      · exact List.forall_mem_cons.mpr ⟨here, digits⟩
      · rw [dotted_cons n (List.ne_nil_of_length_eq_add_one length), List.append_assoc,
          List.cons_append]
    · rintro ⟨numerals, length, digits, rfl, ends, rfl⟩
      cases numerals with
      | nil => cases length
      | cons n numerals =>
        have length : numerals.length = count + 1 := Nat.succ.inj length
        obtain ⟨here, digits⟩ := List.forall_mem_cons.mp digits
        rw [dotted_cons n (List.ne_nil_of_length_eq_add_one length), List.append_assoc,
          List.cons_append, nyParseDecimalWord_append here (ends_dot _)]
        refine (if_pos rfl).trans ?_
        show (readWords count (dotted numerals ++ rest)).map _ = _
        rw [inductionHypothesis.mpr ⟨numerals, length, digits, rfl, ends, rfl⟩]
        rfl

/-- A string begins with four runs of digits in one way only. -/
theorem runs_unique {count : Nat} {numerals numerals' : List (List UInt8)} {rest rest' : List UInt8}
    (length : numerals.length = count + 1) (length' : numerals'.length = count + 1)
    (digits : ∀ n ∈ numerals, Digits decimalDigit n)
    (digits' : ∀ n ∈ numerals', Digits decimalDigit n) (ends : Ends decimalDigit rest)
    (ends' : Ends decimalDigit rest')
    (same : dotted numerals ++ rest = dotted numerals' ++ rest') : numerals = numerals' := by
  induction count generalizing numerals numerals' with
  | zero =>
    obtain ⟨n, rfl⟩ := List.length_eq_one_iff.mp length
    obtain ⟨n', rfl⟩ := List.length_eq_one_iff.mp length'
    rw [dotted_singleton, dotted_singleton] at same
    rw [(split_unique (digits n List.mem_cons_self) (digits' n' List.mem_cons_self) ends ends'
      same).1]
  | succ count inductionHypothesis =>
    cases numerals with
    | nil => cases length
    | cons n numerals =>
      cases numerals' with
      | nil => cases length'
      | cons n' numerals' =>
        have length : numerals.length = count + 1 := Nat.succ.inj length
        have length' : numerals'.length = count + 1 := Nat.succ.inj length'
        obtain ⟨here, digits⟩ := List.forall_mem_cons.mp digits
        obtain ⟨here', digits'⟩ := List.forall_mem_cons.mp digits'
        rw [dotted_cons n (List.ne_nil_of_length_eq_add_one length),
          dotted_cons n' (List.ne_nil_of_length_eq_add_one length'), List.append_assoc,
          List.append_assoc, List.cons_append, List.cons_append] at same
        obtain ⟨first, later⟩ := split_unique here here' (ends_dot _) (ends_dot _) same
        rw [first, inductionHypothesis length length' digits digits' (List.cons.inj later).2]

theorem nyCheckByte_eq_some {Verbosity : UInt8} {a : Nat} {b : UInt8} :
    NyCheckByte Verbosity a = some b ↔
      (LogFatal Verbosity = true → a ≤ 255) ∧ b = UInt8.ofNat a := by
  rw [NyCheckByte]
  by_cases large : a > 255 ∧ LogFatal Verbosity = true
  · rw [if_pos large]
    exact iff_of_false nofun fun both => absurd (both.1 large.2) (Nat.not_le_of_lt large.1)
  · rw [if_neg large, Option.some_inj, and_iff_right, eq_comm]
    exact fun loud => Nat.le_of_not_lt fun more => large ⟨more, loud⟩

theorem mapM_nyCheckByte {Verbosity : UInt8} {words : List Nat} {quad : List UInt8} :
    words.mapM (NyCheckByte Verbosity) = some quad ↔
      (LogFatal Verbosity = true → ∀ a ∈ words, a ≤ 255) ∧ quad = words.map UInt8.ofNat := by
  induction words generalizing quad with
  | nil =>
    rw [List.mapM_nil, and_iff_right fun _ a member => absurd member List.not_mem_nil]
    exact Option.some_inj.trans eq_comm
  | cons a words inductionHypothesis =>
    rw [List.mapM_cons, List.forall_mem_cons, List.map_cons]
    constructor
    · intro checked
      obtain ⟨b, first, checked⟩ := Option.bind_eq_some_iff.mp checked
      obtain ⟨later, rest, same⟩ := Option.bind_eq_some_iff.mp checked
      obtain ⟨small, rfl⟩ := nyCheckByte_eq_some.mp first
      obtain ⟨smalls, rfl⟩ := inductionHypothesis.mp rest
      exact ⟨fun loud => ⟨small loud, smalls loud⟩, (Option.some.inj same).symm⟩
    · rintro ⟨small, rfl⟩
      refine Option.bind_eq_some_iff.mpr
        ⟨_, nyCheckByte_eq_some.mpr ⟨fun loud => (small loud).1, rfl⟩, ?_⟩
      exact Option.bind_eq_some_iff.mpr
        ⟨_, inductionHypothesis.mpr ⟨fun loud => (small loud).2, rfl⟩, rfl⟩

section

variable {Verbosity : UInt8} {s quad rest : List UInt8} {numerals : List (List UInt8)}

/-- Four runs of digits are accepted if their numbers look like bytes as words, or if nobody looks
at them. -/
theorem Runs.parsed_iff (runs : Runs s numerals rest) {rest' : List UInt8} :
    NyParseDottedDecimalQuad Verbosity s = some (quad, rest') ↔
      (LogFatal Verbosity = true → ∀ n ∈ numerals, decimalValue n % 65536 ≤ 255) ∧
        quad = (numerals.map fun n => UInt8.ofNat (decimalValue n % 65536)) ∧ rest' = rest := by
  have found := readWords_iff.mpr ⟨numerals, runs.four, runs.digits, runs.split, runs.ends, rfl⟩
  obtain ⟨words, last, read, parsed⟩ | ⟨missing, -⟩ := nyParseDottedDecimalQuad_cases Verbosity s
  · rw [found, Option.some_inj, Prod.mk.injEq] at read
    obtain ⟨rfl, rfl⟩ := read
    rw [parsed, Option.map_eq_some_iff]
    constructor
    · rintro ⟨quad', checked, same⟩
      rw [Prod.mk.injEq] at same
      obtain ⟨rfl, rfl⟩ := same
      obtain ⟨small, rfl⟩ := mapM_nyCheckByte.mp checked
      refine ⟨fun loud n member => small loud _ (List.mem_map_of_mem member), ?_, rfl⟩
      rw [List.map_map]
      rfl
    · rintro ⟨small, rfl, rfl⟩
      refine ⟨_, mapM_nyCheckByte.mpr ⟨fun loud a member => ?_, rfl⟩, ?_⟩
      · obtain ⟨n, inside, rfl⟩ := List.mem_map.mp member
        exact small loud n inside
      · rw [List.map_map]
        rfl
  · rw [found] at missing
    cases missing

/-- Without four runs of digits, nothing is accepted where fatal errors are noticed. -/
theorem exists_runs_of_parsed (loud : LogFatal Verbosity = true)
    (parsed : NyParseDottedDecimalQuad Verbosity s = some (quad, rest)) :
    ∃ numerals rest, Runs s numerals rest := by
  obtain ⟨words, last, read, -⟩ | ⟨-, s', stuck⟩ := nyParseDottedDecimalQuad_cases Verbosity s
  · obtain ⟨numerals, four, digits, split, ends, -⟩ := readWords_iff.mp read
    exact ⟨numerals, last, four, digits, split, ends⟩
  · rw [stuck, no_dot, if_pos loud] at parsed
    cases parsed

/-- Where they are not, everything is accepted. -/
theorem exists_parsed_of_quiet (quiet : LogFatal Verbosity = false) (s : List UInt8) :
    ∃ quad rest, NyParseDottedDecimalQuad Verbosity s = some (quad, rest) := by
  obtain ⟨words, last, -, parsed⟩ | ⟨-, s', stuck⟩ := nyParseDottedDecimalQuad_cases Verbosity s
  · have checked := mapM_nyCheckByte.mpr ⟨fun loud => absurd loud (Bool.eq_false_iff.mp quiet),
      (rfl : words.map UInt8.ofNat = _)⟩
    rw [parsed, checked]
    exact ⟨_, _, rfl⟩
  · rw [stuck, no_dot, if_neg (Bool.eq_false_iff.mp quiet)]
    exact ⟨_, _, rfl⟩

theorem Runs.unique (runs : Runs s numerals rest) {numerals' : List (List UInt8)}
    {rest' : List UInt8} (runs' : Runs s numerals' rest') : numerals = numerals' :=
  runs_unique runs.four runs'.four runs.digits runs'.digits runs.ends runs'.ends
    (runs.split.symm.trans runs'.split)

/-- A dotted quad is accepted as what it denotes. -/
theorem parsed_iff_of_denotes {quad' rest' : List UInt8} (denotes : Denotes s quad' rest') :
    NyParseDottedDecimalQuad Verbosity s = some (quad, rest) ↔ quad = quad' ∧ rest = rest' := by
  obtain ⟨numerals, runs, good, rfl⟩ := denotes
  have word : ∀ n ∈ numerals, decimalValue n % 65536 = decimalValue n := fun n member =>
    Nat.mod_eq_of_lt (Nat.lt_of_le_of_lt (good n member).2 (by decide))
  rw [runs.parsed_iff, and_iff_right, List.map_congr_left fun n member => by rw [word n member]]
  exact fun _ n member => (word n member).le.trans (good n member).2

end

/-! ### Writing a quad -/

theorem decimalDigit_write : ∀ d < 10, decimalDigit (UInt8.ofNat (48 + d)) = some d := by decide

theorem decimalValue_decimal (x : Nat) : decimalValue (decimal x) = x := by
  rw [decimal, numeral]
  by_cases zero : x = 0
  · rw [if_pos zero, zero]
    rfl
  · rw [if_neg zero]
    exact value_digits (by decide) decimalDigit_write x

theorem digits_decimal (x : Nat) : Digits decimalDigit (decimal x) := by
  intro c member
  rw [decimal, numeral] at member
  split at member
  · rw [List.mem_singleton.mp member]
    rfl
  · rw [List.mem_reverse] at member
    obtain ⟨d, digit, rfl⟩ := List.mem_map.mp member
    rw [decimalDigit_write d (Nat.digits_lt_base (by decide) digit)]
    rfl

theorem decimal_ne_nil (x : Nat) : decimal x ≠ [] := by
  rw [decimal, numeral]
  split
  · exact List.cons_ne_nil _ _
  · rename_i nonzero
    rw [Ne, List.reverse_eq_nil_iff, List.map_eq_nil_iff]
    exact Nat.digits_ne_nil_iff_ne_zero.mpr nonzero

/-- A `%d` writes a byte in decimal. -/
theorem field_byte (p : UInt8) (args : List Arg) :
    Format.field Format.usual ⟨false, 0, false, false, false⟩ 0 100 (.int p.toUInt16 :: args) =
      some ⟨0, (decimal p.toNat).length, decimal p.toNat, args⟩ := by
  have positive : p.toUInt16.toBitVec.toInt = (p.toNat : Int) := by
    rw [BitVec.toInt_eq_toNat_of_lt]
    · rfl
    · have small := p.toNat_lt
      show 2 * p.toNat < 65536
      omega
  have written : Format.usual.signed p.toUInt16.toBitVec.toInt = decimal p.toNat := by
    rw [positive, Format.usual]
    dsimp only
    rw [if_neg (Int.not_lt.mpr (Int.natCast_nonneg _)), Int.natAbs_natCast]
  show some (⟨0, _, Format.usual.signed p.toUInt16.toBitVec.toInt, args⟩ : Format.Field) = _
  rw [written]

/-- What is written is the four numerals, separated by dots. -/
theorem nyFormatDottedDecimalQuad_eq (a b c d : UInt8) :
    NyFormatDottedDecimalQuad 512 [a, b, c, d] =
      .done (dotted [decimal a.toNat, decimal b.toNat, decimal c.toNat, decimal d.toNat]) := by
  have parts : Format.itemsUpTo 11 quadFormat =
      [.conversion ⟨false, 0, false, false, false⟩ 0 100, .plain 46,
        .conversion ⟨false, 0, false, false, false⟩ 0 100, .plain 46,
        .conversion ⟨false, 0, false, false, false⟩ 0 100, .plain 46,
        .conversion ⟨false, 0, false, false, false⟩ 0 100] := rfl
  have last : dotted [decimal a.toNat, decimal b.toNat, decimal c.toNat, decimal d.toNat] =
      decimal a.toNat ++ (46 :: (decimal b.toNat ++ (46 :: (decimal c.toNat ++
        (46 :: (decimal d.toNat ++ [])))))) := by
    rw [dotted_cons _ (List.cons_ne_nil _ _), dotted_cons _ (List.cons_ne_nil _ _),
      dotted_cons _ (List.cons_ne_nil _ _), dotted_singleton, List.append_nil]
  rw [NyFormatDottedDecimalQuad, Format.BufFormatVA, last]
  refine @Format.formatLoop_of_fits 512 512 (by decide) quadFormat 11 (by decide) (by decide) _ _
    ?_ ?_ []
  · rw [parts]
    simp only [List.map_cons, List.map_nil, Format.meaning, field_byte, Option.map_some,
      Format.Field.padded, Nat.zero_sub, List.replicate_zero, List.nil_append]
    rfl
  · rw [parts]
    simp only [List.map_cons, List.map_nil, Format.Fits, field_byte, Nat.zero_sub]
    decide

/-! ### The codec -/

/-- A string is parsed as it denotes just if it is guarded. -/
theorem parsed_right_iff (Verbosity : UInt8) (s : List UInt8) :
    (∀ quad rest,
      NyParseDottedDecimalQuad Verbosity s = some (quad, rest) ↔ Denotes s quad rest) ↔
      Guarded Verbosity s := by
  have denoted : ∀ {quad rest}, Denotes s quad rest → ∀ quad' rest',
      NyParseDottedDecimalQuad Verbosity s = some (quad', rest') ↔ Denotes s quad' rest' := by
    intro quad rest denotes quad' rest'
    constructor
    · intro parsed
      obtain ⟨rfl, rfl⟩ := (parsed_iff_of_denotes denotes).mp parsed
      exact denotes
    · intro also
      exact (parsed_iff_of_denotes also).mpr ⟨rfl, rfl⟩
  rw [Guarded]
  split
  case isTrue quiet =>
    constructor
    · intro right
      obtain ⟨quad, rest, parsed⟩ := exists_parsed_of_quiet
        (Bool.eq_false_iff.mpr fun loud => logFatal_iff.mp loud quiet) s
      exact ⟨quad, rest, (right quad rest).mp parsed⟩
    · rintro ⟨quad, rest, denotes⟩
      exact denoted denotes
  case isFalse loud =>
    have fatal := logFatal_iff.mpr loud
    constructor
    · intro right numerals rest runs small
      have accepted := (@Runs.parsed_iff Verbosity s _ rest numerals runs rest).mpr
        ⟨fun _ => small, rfl, rfl⟩
      obtain ⟨numerals', runs', good, -⟩ := (right _ _).mp accepted
      exact runs.unique runs' ▸ good
    · intro plain quad rest
      refine ⟨fun parsed => ?_, fun denotes => (denoted denotes quad rest).mpr denotes⟩
      obtain ⟨numerals, rest', runs⟩ := exists_runs_of_parsed fatal parsed
      have good := plain numerals rest' runs ((runs.parsed_iff.mp parsed).1 fatal)
      exact (denoted ⟨numerals, runs, good, rfl⟩ quad rest).mp parsed

/-- What is written of an address denotes it. -/
theorem denotes_dotted_decimal (a b c d : UInt8) :
    Denotes (dotted [decimal a.toNat, decimal b.toNat, decimal c.toNat, decimal d.toNat])
      [a, b, c, d] [] := by
  refine ⟨[a, b, c, d].map fun p => decimal p.toNat, ⟨rfl, ?_, ?_, ends_nil⟩, ?_, ?_⟩
  · intro n member
    obtain ⟨p, -, rfl⟩ := List.mem_map.mp member
    exact digits_decimal _
  · rw [List.append_nil]
    rfl
  · intro n member
    obtain ⟨p, -, rfl⟩ := List.mem_map.mp member
    have small := p.toNat_lt
    rw [decimalValue_decimal]
    exact ⟨decimal_ne_nil _, by omega⟩
  · rw [List.map_map]
    refine (List.map_id _).symm.trans (List.map_congr_left fun p _ => ?_)
    show p = UInt8.ofNat (decimalValue (decimal p.toNat))
    rw [decimalValue_decimal, UInt8.ofNat_toNat]

/-- A string is parsed as it denotes just if it is guarded: if it begins with four runs of digits
that look like a dotted quad as words, they are one; and where fatal errors are not noticed, it
begins with one. And what is written of an address is parsed back to it. -/
theorem dottedQuad_codec (Verbosity : UInt8) (s : List UInt8) (a b c d : UInt8) :
    ((∀ quad rest,
      NyParseDottedDecimalQuad Verbosity s = some (quad, rest) ↔ Denotes s quad rest) ↔
      Guarded Verbosity s) ∧
    ∃ rounds text, NyFormatDottedDecimalQuad rounds [a, b, c, d] = .done text ∧
      NyParseDottedDecimalQuad Verbosity text = some ([a, b, c, d], []) :=
  ⟨parsed_right_iff Verbosity s, 512, _, nyFormatDottedDecimalQuad_eq a b c d,
    (parsed_iff_of_denotes (denotes_dotted_decimal a b c d)).mpr ⟨rfl, rfl⟩⟩

/-- The string `1..3.65540` is taken for 1.0.3.4, and at `Verbosity` 0 the string `300.1.2.3` is
taken for 44.1.2.3. -/
theorem not_dottedQuad_codec :
    (NyParseDottedDecimalQuad LLInfo [49, 46, 46, 51, 46, 54, 53, 53, 52, 48] =
      some ([1, 0, 3, 4], []) ∧
      ¬Denotes [49, 46, 46, 51, 46, 54, 53, 53, 52, 48] [1, 0, 3, 4] []) ∧
    NyParseDottedDecimalQuad 0 [51, 48, 48, 46, 49, 46, 50, 46, 51] = some ([44, 1, 2, 3], []) ∧
      ¬Denotes [51, 48, 48, 46, 49, 46, 50, 46, 51] [44, 1, 2, 3] [] := by
  refine ⟨⟨by decide, ?_⟩, by decide, ?_⟩
  · rintro ⟨numerals, runs, good, -⟩
    have same : numerals = [[49], [], [51], [54, 53, 53, 52, 48]] := runs_unique runs.four rfl
      runs.digits (by decide) runs.ends ends_nil (runs.split.symm.trans rfl)
    exact (good [] (same ▸ List.mem_cons_of_mem _ List.mem_cons_self)).1 rfl
  · rintro ⟨numerals, runs, good, -⟩
    have same : numerals = [[51, 48, 48], [49], [50], [51]] := runs_unique runs.four rfl
      runs.digits (by decide) runs.ends ends_nil (runs.split.symm.trans rfl)
    have small := (good [51, 48, 48] (same ▸ List.mem_cons_self)).2
    exact absurd small (by decide)

/-! ### Numbers with prefixes -/

def CharUp (c : UInt8) : UInt8 := if 97 ≤ c ∧ c ≤ 122 then c - 32 else c

def octalDigit (ch : UInt8) : Option Nat :=
  if 48 ≤ ch ∧ ch ≤ 55 then some (ch.toNat - 48) else none

def hexDigit (ch : UInt8) : Option Nat :=
  if (48 ≤ ch ∧ ch ≤ 57) ∨ (65 ≤ CharUp ch ∧ CharUp ch ≤ 70) then
    if 48 ≤ ch ∧ ch ≤ 57 then some (ch.toNat - 48) else some ((CharUp ch).toNat + 10 - 65)
  else none

/-- The value of an `int`. -/
def intOf (z : Nat) : Int := (BitVec.ofNat 16 z).toInt

/-- The three loops of `prefixed_atoi`. -/
def afterSign (s : List UInt8) : Nat :=
  if s.head? = some 48 then
    let s := s.tail
    -- the letter is not stepped over
    if s.head? = some 120 then (read hexDigit 16 65536 0 s).1
    else (read octalDigit 8 65536 0 s).1
  else (read decimalDigit 10 65536 0 s).1

def prefixed_atoi (s : List UInt8) : Int :=
  if s.head? = some 45 then intOf (65536 - afterSign s.tail) else intOf (afterSign s)

inductive Notation
  | decimal
  | hexadecimal
  | octal
  deriving DecidableEq

def Notation.letters : Notation → List UInt8
  | .decimal => []
  | .hexadecimal => [48, 120]
  | .octal => [48]

def Notation.digit : Notation → UInt8 → Option Nat
  | .decimal => decimalDigit
  | .hexadecimal => hexDigit
  | .octal => octalDigit

def Notation.base : Notation → Nat
  | .decimal => 10
  | .hexadecimal => 16
  | .octal => 8

/-- The digits behind the prefix. In decimal, the first one is no zero; in octal, the prefix is a
numeral of zero by itself. -/
def Notation.Wellformed : Notation → List UInt8 → Prop
  | .decimal, digits => digits ≠ [] ∧ digits.head? ≠ some 48
  | .hexadecimal, digits => digits ≠ []
  | .octal, _ => True

/-- The number that is written, with its sign. -/
def Notation.number (n : Notation) (negative : Bool) (digits : List UInt8) : Int :=
  if negative then -(value n.digit n.base digits : Int) else value n.digit n.base digits

def Notation.text (n : Notation) (negative : Bool) (digits : List UInt8) : List UInt8 :=
  (if negative then [45] else []) ++ (n.letters ++ digits)

theorem intOf_eq {z : Nat} (small : z ≤ 32767) : intOf z = z := by
  have word : (BitVec.ofNat 16 z).toNat = z := by
    rw [BitVec.toNat_ofNat, Nat.mod_eq_of_lt (by omega)]
  rw [intOf, BitVec.toInt_eq_toNat_of_lt (by omega), word]

theorem intOf_sub {z : Nat} (small : z ≤ 32768) : intOf (65536 - z) = -z := by
  have word : (BitVec.ofNat 16 (65536 - z)).toNat = (65536 - z) % 65536 := BitVec.toNat_ofNat _ _
  rw [intOf, BitVec.toInt_eq_toNat_cond, word]
  split <;> omega

/-- What is read behind the sign is the number in decimal and in octal, and zero in hexadecimal. -/
theorem afterSign_eq {n : Notation} {digits rest : List UInt8} (wellformed : n.Wellformed digits)
    (are : Digits n.digit digits) (ends : Ends n.digit rest) :
    afterSign (n.letters ++ digits ++ rest) =
      if n = .hexadecimal then 0 else value n.digit n.base digits % 65536 := by
  cases n with
  | decimal =>
    obtain ⟨full, nonzero⟩ := wellformed
    cases digits with
    | nil => exact absurd rfl full
    | cons c digits =>
      have first : (Notation.decimal.letters ++ c :: digits ++ rest).head? ≠ some 48 := nonzero
      have other : Notation.decimal ≠ .hexadecimal := nofun
      rw [afterSign, if_neg first, if_neg other]
      exact congrArg Prod.fst (read_zero_append are ends)
  | hexadecimal => rfl
  | octal =>
    show (if (digits ++ rest).head? = some 120 then (read hexDigit 16 65536 0 (digits ++ rest)).1
      else (read octalDigit 8 65536 0 (digits ++ rest)).1) = _
    have other : Notation.octal ≠ .hexadecimal := nofun
    rw [if_neg other]
    split
    · -- the numeral is the prefix alone, and what comes behind it begins with an x
      rename_i letter
      cases digits with
      | nil =>
        cases rest with
        | nil => cases letter
        | cons c rest =>
          rw [List.nil_append, List.head?_cons, Option.some_inj] at letter
          rw [letter]
          rfl
      | cons c digits =>
        obtain ⟨⟨d, known⟩, -⟩ := digits_cons.mp are
        rw [List.cons_append, List.head?_cons, Option.some_inj] at letter
        rw [letter] at known
        cases known
    · exact congrArg Prod.fst (read_zero_append are ends)

/-- No numeral begins with a sign of its own. -/
theorem head?_ne_minus {n : Notation} {digits rest : List UInt8} (wellformed : n.Wellformed digits)
    (are : Digits n.digit digits) : (n.letters ++ digits ++ rest).head? ≠ some 45 := by
  cases n with
  | decimal =>
    cases digits with
    | nil => exact absurd rfl wellformed.1
    | cons c digits =>
      obtain ⟨⟨d, known⟩, -⟩ := digits_cons.mp are
      intro minus
      have same : c = 45 := Option.some.inj minus
      rw [same] at known
      cases known
  | hexadecimal => exact nofun
  | octal => exact nofun

/-- A number in decimal or octal is read, and one in hexadecimal only if it is zero. -/
theorem prefixed_atoi_iff {n : Notation} {negative : Bool} {digits rest : List UInt8}
    (wellformed : n.Wellformed digits) (are : Digits n.digit digits) (ends : Ends n.digit rest)
    (least : -32768 ≤ n.number negative digits) (most : n.number negative digits ≤ 32767) :
    prefixed_atoi (n.text negative digits ++ rest) = n.number negative digits ↔
      n ≠ .hexadecimal ∨ n.number negative digits = 0 := by
  have after := afterSign_eq wellformed are ends
  have result : prefixed_atoi (n.text negative digits ++ rest) =
      if n = .hexadecimal then 0 else n.number negative digits := by
    rw [Notation.number] at least most ⊢
    cases negative with
    | true =>
      rw [if_pos rfl] at least most ⊢
      show (if some (45 : UInt8) = some 45 then
        intOf (65536 - afterSign (n.letters ++ digits ++ rest)) else _) = _
      rw [if_pos rfl, after]
      split
      · rfl
      · rw [Nat.mod_eq_of_lt (by omega), intOf_sub (by omega)]
    | false =>
      rw [if_neg Bool.false_ne_true] at least most ⊢
      show prefixed_atoi (n.letters ++ digits ++ rest) = _
      rw [prefixed_atoi, if_neg (head?_ne_minus wellformed are), after]
      split
      · rfl
      · rw [Nat.mod_eq_of_lt (by omega), intOf_eq (by omega)]
  rw [result]
  by_cases hexadecimal : n = .hexadecimal
  · rw [if_pos hexadecimal, eq_comm]
    exact ⟨.inr, fun either => either.resolve_left (not_not.mpr hexadecimal)⟩
  · rw [if_neg hexadecimal]
    exact iff_of_true rfl (.inl hexadecimal)

/-- The number `-0017` is octal for -15. -/
theorem prefixed_atoi_iff_octal :
    prefixed_atoi [45, 48, 48, 49, 55, 56] = -15 ↔
      Notation.octal ≠ .hexadecimal ∨ (-15 : Int) = 0 :=
  @prefixed_atoi_iff .octal true [48, 49, 55] [56] trivial (by decide) (ends_cons rfl []) (by decide)
    (by decide)

/-- The number `0x10` is read as zero. -/
theorem not_prefixed_atoi_hexadecimal :
    ¬∀ n negative digits rest, Notation.Wellformed n digits → Digits n.digit digits →
      Ends n.digit rest → -32768 ≤ n.number negative digits → n.number negative digits ≤ 32767 →
        prefixed_atoi (n.text negative digits ++ rest) = n.number negative digits := by
  intro right
  have sixteen := right .hexadecimal false [49, 48] [] (List.cons_ne_nil _ _) (by decide) ends_nil
    (by decide) (by decide)
  exact absurd sixteen (by decide)

end Frobio.Numerals
