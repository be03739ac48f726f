/-
This file models the two helpers `split-lemma` and `join-lemma`. The first writes each message
of a boot stream in a file of its own, and puts the message's quint and its offset in the
stream in the file's name; the second takes such files and makes the stream again.

The offset is written with at least six digits, and with more where it needs more; the pattern
of `join-lemma` knows six. What is written in the name is read back by the same pattern, so
the law is about names: every message has to begin where six digits reach.
-/

import Mathlib.Data.Char
import Mathlib.Data.List.Lex
import Mathlib.Data.Nat.Digits.Lemmas
import Mathlib.Tactic
import Frobio.Coms.Quint
import Frobio.Lib.Numeral

namespace Frobio.SplitLemma

open Coms Numeral

/-! ### The names -/

def hexDigit (d : Nat) : Char :=
  ['0', '1', '2', '3', '4', '5', '6', '7', '8', '9', 'a', 'b', 'c', 'd', 'e', 'f'].getD d '0'

/-- `%06x`, and the same with other widths. -/
def formatHex (width n : Nat) : List Char :=
  let digits := ((Nat.digits 16 n).map hexDigit).reverse
  List.replicate (width - digits.length) '0' ++ digits

/-- The size and the comment with which `split` calls `take`. -/
def kind (q : Quint) : Nat × List Char :=
  if q.command = 0 then (q.n, "poke".toList)
  else if q.command = 255 then (q.n, "call".toList)
  else if q.command = 207 then (q.n, "block_read".toList)
  else if q.command = 208 then (q.n, "block_write".toList)
  else if q.command = 209 then (q.n, "block_error".toList)
  else if q.command = 210 then (q.n, "block_okay".toList)
  else if q.command = 211 then (0, "boot_begin".toList)
  else if q.command = 212 then (q.n, "boot_chunk".toList)
  else if q.command = 213 then (0, "boot_end".toList)
  else (q.n, "cmd".toList ++ Nat.toDigits 10 q.command.toNat)

/-- What stands in a name behind the underscore. -/
def fields (offset : Nat) (q : Quint) : List Char :=
  formatHex 6 offset ++ '.' :: (formatHex 2 q.command.toNat ++ '.' :: (formatHex 4 q.n ++
    '.' :: (formatHex 4 q.p ++ '.' :: ((kind q).2 ++ ".qnt".toList))))

def filename (oflag : List Char) (offset : Nat) (q : Quint) : List Char :=
  oflag ++ '_' :: fields offset q

/-! ### Splitting -/

structure File where
  name : List Char
  content : List UInt8
  deriving DecidableEq

def WriteFile (dir : List File) (name : List Char) (content : List UInt8) : List File :=
  (dir.filter fun file => file.name ≠ name) ++ [⟨name, content⟩]

/-- The loop of `split` and `take`; `none` where the program ends with `log.Fatalf`. -/
def splitLoop (oflag : List Char) (offset : Nat) (dir : List File) (r : List UInt8) :
    Option (List File) :=
  if r = [] then some dir
  else
    match quint : readQuint r with
    | none => none
    | some (q, rest) =>
      match whole : readFull (kind q).1 rest with
      | none => none
      | some (bb, rest') =>
        splitLoop oflag (offset + (5 + (kind q).1))
          (WriteFile dir (filename oflag offset q) bb) rest'
termination_by r.length
decreasing_by
  rw [readQuint_eq_some.mp quint, (readFull_eq_some.mp whole).1, List.length_append,
    List.length_append, Quint.length_bytes]
  omega

def split (oflag : List Char) (r : List UInt8) : Option (List File) := splitLoop oflag 0 [] r

/-! ### Joining -/

/-- The class `[0-9A-Fa-f]` and the value of a character in it. -/
def hexValue (c : Char) : Option Nat :=
  if '0' ≤ c ∧ c ≤ '9' then some (c.toNat - 48)
  else if 'a' ≤ c ∧ c ≤ 'f' then some (c.toNat - 87)
  else if 'A' ≤ c ∧ c ≤ 'F' then some (c.toNat - 55)
  else none

/-- The class `[0-9A-Za-z_)]`. -/
def isWord (c : Char) : Bool :=
  ('0' ≤ c ∧ c ≤ '9') ∨ ('A' ≤ c ∧ c ≤ 'Z') ∨ ('a' ≤ c ∧ c ≤ 'z') ∨ c = '_' ∨ c = ')'

/-- The submatches that `emit` uses: `m[3]`, `m[4]` and `m[5]`. -/
structure Submatch where
  c_str : List Char
  n_str : List Char
  p_str : List Char

/-- `([0-9A-Fa-f]{count})[.]` and what is matched behind it. -/
def hexField (count : Nat) (text : List Char) : Option (List Char × List Char) :=
  if (text.take count).length = count ∧ Digits hexValue (text.take count) ∧
      text[count]? = some '.' then
    some (text.take count, text.drop (count + 1))
  else none

/-- The pattern behind `(.*)_`. -/
def matchFields (text : List Char) : Option Submatch :=
  (hexField 6 text).bind fun offset =>
  (hexField 2 offset.2).bind fun c =>
  (hexField 4 c.2).bind fun n =>
  (hexField 4 n.2).bind fun p =>
  if ".qnt".toList <+: p.2.dropWhile isWord then some ⟨c.1, n.1, p.1⟩ else none

/-- The pattern in one line: `.*` takes as much as it can, so it is the last underscore
from which the rest matches. -/
def matchLine : List Char → Option Submatch
  | [] => none
  | c :: text =>
    match matchLine text with
    | some m => some m
    | none => if c = '_' then matchFields text else none

/-- `FindStringSubmatch`. The dot does not match the end of a line, and the leftmost match is
taken. -/
def FindStringSubmatch (name : List Char) : Option Submatch :=
  (name.splitOn '\n').findSome? matchLine

def ParseUint (s : List Char) (bitSize : Nat) : Option Nat :=
  if s ≠ [] ∧ Digits hexValue s ∧ value hexValue 16 s < 2 ^ bitSize then
    some (value hexValue 16 s)
  else none

/-- `none` where the program ends with `log.Fatalf`. -/
def emit (file : File) : Option (List UInt8) :=
  (FindStringSubmatch file.name).bind fun m =>
  (ParseUint m.c_str 8).bind fun c =>
  (ParseUint m.n_str 16).bind fun n =>
  (ParseUint m.p_str 16).bind fun p =>
  some ([UInt8.ofNat c, hi n, lo n, hi p, lo p] ++ file.content)

def join : List File → Option (List UInt8)
  | [] => some []
  | file :: files => (emit file).bind fun bytes => (join files).map fun rest => bytes ++ rest

/-- The files in the order of their names. -/
def byName (dir : List File) : List File :=
  dir.mergeSort fun first second => decide (first.name ≤ second.name)

/-! ### The law -/

/-- A message as `split` reads it. -/
structure Message where
  q : Quint
  payload : List UInt8
  whole : payload.length = (kind q).1

def Message.bytes (m : Message) : List UInt8 := m.q.bytes ++ m.payload

/-- Whatever the output prefix is, as long as it is one line, the files make the stream. -/
def Reproduces (r : List UInt8) : Prop :=
  ∀ oflag, '\n' ∉ oflag → ∃ dir, split oflag r = some dir ∧ join (byName dir) = some r

/-- Every message begins below the offset 2^24. -/
def WithinReach (messages : List Message) : Prop :=
  ∀ before m after, messages = before ++ m :: after →
    (before.flatMap Message.bytes).length < 16777216

/-! ### Numbers in names -/

theorem hexValue_hexDigit {d : Nat} (small : d < 16) : hexValue (hexDigit d) = some d := by
  interval_cases d <;> decide

theorem length_formatHex {width n : Nat} (fits : n < 16 ^ width) :
    (formatHex width n).length = width := by
  have short : (Nat.digits 16 n).length ≤ width :=
    (Nat.digits_length_le_iff (by decide) n).mpr fits
  rw [formatHex, List.length_append, List.length_replicate, List.length_reverse, List.length_map]
  omega

theorem mem_formatHex {width n : Nat} {c : Char} (member : c ∈ formatHex width n) :
    ∃ d < 16, c = hexDigit d := by
  rw [formatHex, List.mem_append, List.mem_reverse, List.mem_map] at member
  rcases member with zero | ⟨d, digit, rfl⟩
  · exact ⟨0, by decide, List.eq_of_mem_replicate zero⟩
  · exact ⟨d, Nat.digits_lt_base (by decide) digit, rfl⟩

theorem digits_formatHex (width n : Nat) : Digits hexValue (formatHex width n) := by
  intro c member
  obtain ⟨d, small, rfl⟩ := mem_formatHex member
  rw [hexValue_hexDigit small]
  rfl

/-- Any function that knows the digits reads the number back. -/
theorem value_formatHex {digit : Char → Option Nat}
    (inverse : ∀ d < 16, digit (hexDigit d) = some d) (width n : Nat) :
    value digit 16 (formatHex width n) = n := by
  have zero : digit '0' = some 0 := inverse 0 (by decide)
  rw [formatHex, value_zeros zero, value_digits (by decide) inverse]

theorem parseUint_formatHex {width bitSize n : Nat} (fits : n < 2 ^ bitSize)
    (positive : 0 < (formatHex width n).length) :
    ParseUint (formatHex width n) bitSize = some n := by
  have same := @value_formatHex hexValue (fun d small => hexValue_hexDigit small) width n
  rw [ParseUint, same, if_pos ⟨List.ne_nil_of_length_pos positive, digits_formatHex width n, fits⟩]

/-! ### The names of files -/

theorem hexField_append {x : List Char} (are : Digits hexValue x) (rest : List Char) :
    hexField x.length (x ++ '.' :: rest) = some (x, rest) := by
  have dot : (x ++ '.' :: rest)[x.length]? = some '.' := by
    rw [List.getElem?_append_right (le_refl _), Nat.sub_self]
    rfl
  have behind : (x ++ '.' :: rest).drop (x.length + 1) = rest := by
    rw [← List.drop_drop, List.drop_left' rfl]
    rfl
  rw [hexField, List.take_left' rfl, behind, if_pos ⟨rfl, are, dot⟩]

theorem comment_word (q : Quint) : (∀ c ∈ (kind q).2, isWord c = true) ∧
    (kind q).2.length ≤ 11 := by
  have number : ∀ n < 256, ("cmd".toList ++ Nat.toDigits 10 n).all isWord = true ∧
      ("cmd".toList ++ Nat.toDigits 10 n).length ≤ 11 := by decide +kernel
  rw [← List.all_eq_true]
  unfold kind
  split_ifs
  all_goals dsimp only
  all_goals first | decide +kernel | exact number q.command.toNat q.command.toNat_lt

theorem fits_command (q : Quint) : q.command.toNat < 16 ^ 2 := q.command.toNat_lt

theorem fits_n (q : Quint) : q.n < 16 ^ 4 := q.n_lt

theorem fits_p (q : Quint) : q.p < 16 ^ 4 := q.p_lt

theorem dropWhile_comment (q : Quint) :
    ((kind q).2 ++ ".qnt".toList).dropWhile isWord = ".qnt".toList := by
  rw [List.dropWhile_append_of_pos fun c member => (comment_word q).1 c member]
  rfl

/-- The pattern takes the fields of a name apart, if the offset has six digits. -/
theorem matchFields_fields {offset : Nat} (reach : offset < 16777216) (q : Quint) :
    matchFields (fields offset q) = some ⟨formatHex 2 q.command.toNat, formatHex 4 q.n,
      formatHex 4 q.p⟩ := by
  have field : ∀ {width n : Nat} (rest : List Char), n < 16 ^ width →
      hexField width (formatHex width n ++ '.' :: rest) = some (formatHex width n, rest) := by
    intro width n rest fits
    have same := hexField_append (digits_formatHex width n) rest
    rwa [length_formatHex fits] at same
  rw [matchFields, fields, field _ reach, Option.bind_some, field _ (fits_command q),
    Option.bind_some, field _ (fits_n q), Option.bind_some, field _ (fits_p q), Option.bind_some,
    dropWhile_comment, if_pos (List.prefix_refl _)]

/-- It does not match where the offset has more. -/
theorem matchFields_far {offset : Nat} (far : 16777216 ≤ offset) (q : Quint) :
    matchFields (fields offset q) = none := by
  have long : 6 < (formatHex 6 offset).length := by
    have digits : 6 < (Nat.digits 16 offset).length :=
      (Nat.lt_digits_length_iff (by decide) offset).mpr far
    rw [formatHex, List.length_append, List.length_reverse, List.length_map]
    omega
  have digit : (fields offset q)[6]? ≠ some '.' := by
    rw [fields, List.getElem?_append_left long, List.getElem?_eq_getElem long, Ne, Option.some_inj]
    intro dot
    have hex := digits_formatHex 6 offset _ (List.getElem_mem long)
    rw [dot] at hex
    exact absurd hex (by decide)
  rw [matchFields, hexField, if_neg fun matched => digit matched.2.2]
  rfl

theorem length_of_hexField {count : Nat} {text : List Char} {found : List Char × List Char}
    (matched : hexField count text = some found) :
    text.length = count + 1 + found.2.length := by
  rw [hexField] at matched
  split at matched
  · rename_i conditions
    cases matched
    obtain ⟨inside, -⟩ := List.getElem?_eq_some_iff.mp conditions.2.2
    rw [List.length_drop]
    omega
  · cases matched

/-- No other underscore of a name has the pattern behind it. -/
theorem matchFields_of_short {text : List Char} (short : text.length < 20) :
    matchFields text = none := by
  rw [Option.eq_none_iff_forall_ne_some]
  intro m matched
  obtain ⟨offset, first, matched⟩ := Option.bind_eq_some_iff.mp matched
  obtain ⟨c, second, matched⟩ := Option.bind_eq_some_iff.mp matched
  obtain ⟨n, third, matched⟩ := Option.bind_eq_some_iff.mp matched
  obtain ⟨p, fourth, -⟩ := Option.bind_eq_some_iff.mp matched
  have := length_of_hexField first
  have := length_of_hexField second
  have := length_of_hexField third
  have := length_of_hexField fourth
  omega

theorem matchLine_of_short {text : List Char} (short : text.length < 20) :
    matchLine text = none := by
  induction text with
  | nil => rfl
  | cons c text inductionHypothesis =>
    rw [List.length_cons] at short
    rw [matchLine, inductionHypothesis (by omega), matchFields_of_short (by omega)]
    exact ite_self _

/-- The pattern looks for an underscore. -/
theorem matchLine_append {front rest : List Char} (none_in : '_' ∉ front)
    (none_behind : matchLine rest = none) : matchLine (front ++ rest) = none := by
  induction front with
  | nil => exact none_behind
  | cons c front inductionHypothesis =>
    have other : c ≠ '_' := fun same => none_in (same ▸ List.mem_cons_self)
    rw [List.cons_append, matchLine,
      inductionHypothesis fun member => none_in (List.mem_cons_of_mem c member)]
    exact if_neg other

theorem not_mem_formatHex {c : Char} (other : hexValue c = none) (width n : Nat) :
    c ∉ formatHex width n := by
  intro member
  have hex := digits_formatHex width n c member
  rw [other] at hex
  exact Bool.false_ne_true hex

/-- The underscore in front of the fields is the last one that can matter. -/
theorem matchLine_fields (offset : Nat) (q : Quint) : matchLine (fields offset q) = none := by
  have none_in : ∀ width n, '_' ∉ formatHex width n := not_mem_formatHex (by decide)
  have field : ∀ {width n : Nat} {rest : List Char}, matchLine rest = none →
      matchLine (formatHex width n ++ '.' :: rest) = none := by
    intro width n rest behind
    refine matchLine_append (none_in width n) ?_
    exact @matchLine_append ['.'] rest (by decide) behind
  refine field (field (field (field ?_)))
  refine matchLine_of_short ?_
  have few := (comment_word q).2
  rw [List.length_append]
  show (kind q).2.length + 4 < 20
  omega

theorem matchLine_filename (oflag : List Char) {offset : Nat} (reach : offset < 16777216)
    (q : Quint) : matchLine (filename oflag offset q) =
      some ⟨formatHex 2 q.command.toNat, formatHex 4 q.n, formatHex 4 q.p⟩ := by
  rw [filename]
  induction oflag with
  | nil =>
    rw [List.nil_append, matchLine, matchLine_fields, matchFields_fields reach]
    rfl
  | cons c oflag inductionHypothesis => rw [List.cons_append, matchLine, inductionHypothesis]

theorem matchLine_far {offset : Nat} (far : 16777216 ≤ offset) (q : Quint) :
    matchLine (filename [] offset q) = none := by
  rw [filename, List.nil_append, matchLine, matchLine_fields, matchFields_far far]
  rfl

theorem findStringSubmatch_filename {oflag : List Char} (line : '\n' ∉ oflag) (offset : Nat)
    (q : Quint) :
    FindStringSubmatch (filename oflag offset q) = matchLine (filename oflag offset q) := by
  have alone : ∀ c ∈ filename oflag offset q, (c == '\n') = false := by
    intro c member
    rw [beq_eq_false_iff_ne]
    rintro rfl
    have none_in : ∀ width n, '\n' ∉ formatHex width n := not_mem_formatHex (by decide)
    have comment : '\n' ∉ (kind q).2 := fun inside =>
      absurd ((comment_word q).1 _ inside) (by decide)
    have ending : '\n' ∉ ".qnt".toList := by decide
    have underscore : '\n' ≠ '_' := by decide
    have dot : '\n' ≠ '.' := by decide
    rw [filename, fields] at member
    simp only [List.mem_append, List.mem_cons, line, none_in, comment, ending, underscore, dot,
      or_self] at member
  rw [FindStringSubmatch, List.splitOn, List.splitOnP_eq_singleton alone, List.findSome?_cons,
    List.findSome?_nil]
  cases matchLine (filename oflag offset q) <;> rfl

theorem emit_filename {oflag : List Char} (line : '\n' ∉ oflag) {offset : Nat}
    (reach : offset < 16777216) (q : Quint) (bb : List UInt8) :
    emit ⟨filename oflag offset q, bb⟩ = some (q.bytes ++ bb) := by
  have parse : ∀ {width bitSize n : Nat}, 0 < width → n < 16 ^ width → n < 2 ^ bitSize →
      ParseUint (formatHex width n) bitSize = some n := fun positive fits small =>
    parseUint_formatHex small (by rwa [length_formatHex fits])
  rw [emit, findStringSubmatch_filename line, matchLine_filename oflag reach, Option.bind_some,
    parse (by decide) (fits_command q) q.command.toNat_lt, Option.bind_some,
    parse (by decide) (fits_n q) q.n_lt, Option.bind_some,
    parse (by decide) (fits_p q) q.p_lt, Option.bind_some]
  rw [UInt8.ofNat_toNat, Quint.n, Quint.p, hi_hiLo, lo_hiLo, hi_hiLo, lo_hiLo]
  rfl

/-- The digits that `formatHex` writes; they are in the order of their values. -/
def writtenDigit (c : Char) : Option Nat := (List.range 16).find? fun d => hexDigit d == c

theorem writtenDigit_eq_some {c : Char} {d : Nat} (found : writtenDigit c = some d) :
    d < 16 ∧ hexDigit d = c := by
  have holds := @List.find?_some _ (fun d => hexDigit d == c) _ _ found
  exact ⟨List.mem_range.mp (List.mem_of_find?_eq_some found), beq_iff_eq.mp holds⟩

theorem writtenDigit_hexDigit : ∀ d < 16, writtenDigit (hexDigit d) = some d := by
  decide +kernel

/-- The files are in the order of the offsets. -/
theorem filename_lt (oflag : List Char) {offset offset' : Nat} (less : offset < offset')
    (reach : offset' < 16777216) (q q' : Quint) :
    filename oflag offset q < filename oflag offset' q' := by
  have ordered : ∀ d d' : Fin 16, d < d' → hexDigit d < hexDigit d' := by decide
  have are : ∀ n, Digits writtenDigit (formatHex 6 n) := by
    intro n c member
    obtain ⟨d, small, rfl⟩ := mem_formatHex member
    rw [writtenDigit_hexDigit d small]
    rfl
  refine List.append_left_lt (List.cons_lt_cons_iff.mpr (.inr ⟨rfl, ?_⟩))
  refine append_lt_append_of_value_lt (by decide) (fun c d found => (writtenDigit_eq_some found).1)
    ?_ ?_ (are offset) (are offset') ?_ ?_ _ _
  · intro c c' d d' found found' below
    obtain ⟨small, rfl⟩ := writtenDigit_eq_some found
    obtain ⟨small', rfl⟩ := writtenDigit_eq_some found'
    exact ordered ⟨d, small⟩ ⟨d', small'⟩ below
  · intro c c' d found found'
    exact (writtenDigit_eq_some found).2.symm.trans (writtenDigit_eq_some found').2
  · rw [length_formatHex (show offset < 16 ^ 6 by omega), length_formatHex reach]
  · rw [value_formatHex writtenDigit_hexDigit, value_formatHex writtenDigit_hexDigit]
    exact less

/-! ### Whole streams -/

def filesFrom (oflag : List Char) : Nat → List Message → List File
  | _, [] => []
  | offset, m :: messages =>
    ⟨filename oflag offset m.q, m.payload⟩ :: filesFrom oflag (offset + m.bytes.length) messages

theorem splitLoop_bytes (oflag : List Char) (offset : Nat) (dir : List File) (m : Message)
    (rest : List UInt8) :
    splitLoop oflag offset dir (m.bytes ++ rest) =
      splitLoop oflag (offset + m.bytes.length)
        (WriteFile dir (filename oflag offset m.q) m.payload) rest := by
  have first : readQuint (m.bytes ++ rest) = some (m.q, m.payload ++ rest) := by
    rw [Message.bytes, List.append_assoc, readQuint_bytes]
  have second : readFull (kind m.q).1 (m.payload ++ rest) = some (m.payload, rest) :=
    readFull_append m.whole rest
  have length : m.bytes.length = 5 + (kind m.q).1 := by
    rw [Message.bytes, List.length_append, Quint.length_bytes, m.whole]
  rw [splitLoop, if_neg (by rw [Message.bytes]; exact List.cons_ne_nil _ _)]
  split
  · rename_i none
    rw [first] at none
    cases none
  · rename_i q rest' quint
    rw [first] at quint
    cases quint
    split
    · rename_i none
      rw [second] at none
      cases none
    · rename_i bb rest' whole
      rw [second] at whole
      cases whole
      rw [length]

theorem mem_filesFrom {oflag : List Char} {offset : Nat} {messages : List Message} {file : File}
    (member : file ∈ filesFrom oflag offset messages) :
    ∃ before m after, messages = before ++ m :: after ∧
      file = ⟨filename oflag (offset + (before.flatMap Message.bytes).length) m.q, m.payload⟩ := by
  induction messages generalizing offset with
  | nil => exact absurd member List.not_mem_nil
  | cons m messages inductionHypothesis =>
    rcases List.mem_cons.mp member with rfl | later
    · exact ⟨[], m, messages, rfl, rfl⟩
    · obtain ⟨before, m', after, rfl, rfl⟩ := inductionHypothesis later
      refine ⟨m :: before, m', after, rfl, ?_⟩
      rw [List.flatMap_cons, List.length_append, Nat.add_assoc]

theorem filename_ne (oflag : List Char) {offset offset' : Nat} (less : offset < offset')
    (reach : offset' < 16777216) (q q' : Quint) :
    filename oflag offset q ≠ filename oflag offset' q' := by
  intro same
  have below := filename_lt oflag less reach q q'
  rw [same] at below
  exact List.lt_irrefl _ below

/-- Where every message begins within reach, each gets a file of its own. -/
theorem splitLoop_eq {oflag : List Char} {messages : List Message} {offset : Nat} {dir : List File}
    (reach : ∀ before m after, messages = before ++ m :: after →
      offset + (before.flatMap Message.bytes).length < 16777216)
    (older : ∀ file ∈ dir, ∃ offset' < offset, ∃ q, file.name = filename oflag offset' q) :
    splitLoop oflag offset dir (messages.flatMap Message.bytes) =
      some (dir ++ filesFrom oflag offset messages) := by
  induction messages generalizing offset dir with
  | nil =>
    rw [List.flatMap_nil, splitLoop, if_pos rfl, filesFrom, List.append_nil]
  | cons m messages inductionHypothesis =>
    have here := reach [] m messages rfl
    have positive : 0 < m.bytes.length := by
      rw [Message.bytes, List.length_append, Quint.length_bytes]
      omega
    have written : WriteFile dir (filename oflag offset m.q) m.payload =
        dir ++ [⟨filename oflag offset m.q, m.payload⟩] := by
      rw [WriteFile, List.filter_eq_self.mpr]
      intro file member
      obtain ⟨offset', less, q, name⟩ := older file member
      rw [decide_eq_true_eq, name]
      exact filename_ne oflag less (Nat.lt_of_le_of_lt (Nat.le_add_right ..) here) q m.q
    rw [List.flatMap_cons, splitLoop_bytes, written, inductionHypothesis, filesFrom,
      List.append_assoc]
    · rfl
    · intro before m' after split
      have there := reach (m :: before) m' after (congrArg (List.cons m) split)
      rwa [List.flatMap_cons, List.length_append, ← Nat.add_assoc] at there
    · intro file member
      rcases List.mem_append.mp member with old | new
      · obtain ⟨offset', less, q, name⟩ := older file old
        exact ⟨offset', by omega, q, name⟩
      · rw [List.mem_singleton.mp new]
        exact ⟨offset, by omega, m.q, rfl⟩

/-- They are in the order of their names then. -/
theorem pairwise_filesFrom {oflag : List Char} {messages : List Message} {offset : Nat}
    (reach : ∀ before m after, messages = before ++ m :: after →
      offset + (before.flatMap Message.bytes).length < 16777216) :
    (filesFrom oflag offset messages).Pairwise fun first second => first.name < second.name := by
  induction messages generalizing offset with
  | nil => exact List.Pairwise.nil
  | cons m messages inductionHypothesis =>
    have positive : 0 < m.bytes.length := by
      rw [Message.bytes, List.length_append, Quint.length_bytes]
      omega
    have later : ∀ before m' after, messages = before ++ m' :: after →
        offset + m.bytes.length + (before.flatMap Message.bytes).length < 16777216 := by
      intro before m' after split
      have there := reach (m :: before) m' after (congrArg (List.cons m) split)
      rwa [List.flatMap_cons, List.length_append, ← Nat.add_assoc] at there
    refine List.Pairwise.cons (fun file member => ?_) (inductionHypothesis later)
    obtain ⟨before, m', after, split, rfl⟩ := mem_filesFrom member
    exact filename_lt oflag (by omega) (later before m' after split) m.q m'.q

theorem join_filesFrom {oflag : List Char} (line : '\n' ∉ oflag) {messages : List Message}
    {offset : Nat}
    (reach : ∀ before m after, messages = before ++ m :: after →
      offset + (before.flatMap Message.bytes).length < 16777216) :
    join (filesFrom oflag offset messages) = some (messages.flatMap Message.bytes) := by
  induction messages generalizing offset with
  | nil => rfl
  | cons m messages inductionHypothesis =>
    have here := reach [] m messages rfl
    rw [filesFrom, join, emit_filename line (Nat.lt_of_le_of_lt (Nat.le_add_right ..) here),
      Option.bind_some, inductionHypothesis, Option.map_some, List.flatMap_cons]
    · rfl
    · intro before m' after split
      have there := reach (m :: before) m' after (congrArg (List.cons m) split)
      rwa [List.flatMap_cons, List.length_append, ← Nat.add_assoc] at there

/-- Every message has a file, whatever was written later. -/
theorem exists_file {oflag : List Char} {messages : List Message} {offset : Nat}
    {dir result : List File}
    (done : splitLoop oflag offset dir (messages.flatMap Message.bytes) = some result) :
    (∀ file ∈ dir, ∃ kept ∈ result, kept.name = file.name) ∧
      ∀ before m after, messages = before ++ m :: after → ∃ kept ∈ result,
        kept.name = filename oflag (offset + (before.flatMap Message.bytes).length) m.q := by
  induction messages generalizing offset dir with
  | nil =>
    rw [List.flatMap_nil, splitLoop, if_pos rfl] at done
    cases done
    refine ⟨fun file member => ⟨file, member, rfl⟩, fun before m after split => ?_⟩
    cases before with
    | nil => cases split
    | cons _ _ => cases split
  | cons m messages inductionHypothesis =>
    rw [List.flatMap_cons, splitLoop_bytes] at done
    obtain ⟨kept, later⟩ := inductionHypothesis done
    refine ⟨fun file member => ?_, fun before m' after split => ?_⟩
    · by_cases same : file.name = filename oflag offset m.q
      · rw [same]
        exact kept _ (List.mem_append_right _ List.mem_cons_self)
      · refine kept file (List.mem_append_left _ (List.mem_filter.mpr ⟨member, ?_⟩))
        exact decide_eq_true same
    · cases before with
      | nil =>
        cases split
        exact kept _ (List.mem_append_right _ List.mem_cons_self)
      | cons first before =>
        cases split
        obtain ⟨file, member, name⟩ := later before m' after rfl
        refine ⟨file, member, ?_⟩
        rw [name, List.flatMap_cons, List.length_append, Nat.add_assoc]

theorem emit_of_join {files : List File} {r : List UInt8} (joined : join files = some r)
    {file : File} (member : file ∈ files) : emit file ≠ none := by
  induction files generalizing r with
  | nil => exact absurd member List.not_mem_nil
  | cons first files inductionHypothesis =>
    obtain ⟨bytes, emitted, joined⟩ := Option.bind_eq_some_iff.mp joined
    obtain ⟨rest, joined, -⟩ := Option.map_eq_some_iff.mp joined
    rcases List.mem_cons.mp member with rfl | later
    · rw [emitted]
      exact nofun
    · exact inductionHypothesis joined later

/-- With no prefix, the file of a message that begins out of reach is not recognised. -/
theorem withinReach_of_reproduces {messages : List Message}
    (reproduces : Reproduces (messages.flatMap Message.bytes)) : WithinReach messages := by
  intro before m after split
  by_contra far
  obtain ⟨dir, done, joined⟩ := reproduces [] List.not_mem_nil
  obtain ⟨kept, member, name⟩ := (exists_file done).2 before m after split
  refine emit_of_join joined (List.mem_mergeSort.mpr member) ?_
  rw [Nat.zero_add] at name
  rw [emit, name, findStringSubmatch_filename List.not_mem_nil, matchLine_far (not_lt.mp far)]
  rfl

/-- The files make the stream again exactly if every message begins within reach of six
digits. -/
theorem reproduces_iff (messages : List Message) :
    Reproduces (messages.flatMap Message.bytes) ↔ WithinReach messages := by
  refine ⟨withinReach_of_reproduces, ?_⟩
  intro reach oflag line
  have reach : ∀ before m after, messages = before ++ m :: after →
      0 + (before.flatMap Message.bytes).length < 16777216 := by
    intro before m after split
    rw [Nat.zero_add]
    exact reach before m after split
  refine ⟨filesFrom oflag 0 messages,
    splitLoop_eq reach fun file member => absurd member List.not_mem_nil, ?_⟩
  have sorted : byName (filesFrom oflag 0 messages) = filesFrom oflag 0 messages := by
    refine List.mergeSort_of_pairwise ((pairwise_filesFrom reach).imp fun less => ?_)
    rw [decide_eq_true_eq]
    exact le_of_lt less
  rw [sorted]
  exact join_filesFrom line reach

/-- The command `BOOT_CHUNK` with as much as a message can hold. -/
def fullChunk : Message where
  q := ⟨212, 0xFF, 0xFF, 0, 0⟩
  payload := List.replicate 65535 0
  whole := List.length_replicate.trans (by decide +kernel)

/-- The last of these messages begins at the offset 16778240. -/
theorem not_reproduces_fullChunks :
    ¬Reproduces ((List.replicate 257 fullChunk).flatMap Message.bytes) := by
  intro reproduces
  have near := withinReach_of_reproduces reproduces (List.replicate 256 fullChunk) fullChunk []
    List.replicate_succ'
  have length : fullChunk.bytes.length = 65540 := by
    rw [Message.bytes, List.length_append, Quint.length_bytes, fullChunk.whole]
    decide +kernel
  rw [List.length_flatMap, List.map_replicate, List.sum_replicate, length] at near
  exact absurd near (by decide)

end Frobio.SplitLemma
