/-
This file is about text as bytes that are read as UTF-8: a byte that begins no valid
rune is a rune of its own, the replacement character.

Bytes below 128 are never inside of a longer rune. So what is done rune by rune is done
word by word, where the words are what is between slashes (`runes_append_slash`).

The letters beyond ASCII have their upper case from a table, of which nothing is assumed
but that no letter becomes a slash.
-/

import Frobio.Lib.SlashPath

namespace Frobio.Utf8

open SlashPath

/-! ### Runes -/

def RuneError : Nat := 0xFFFD

/-- The length of a rune with this first byte, and the least and the greatest second byte. -/
def leader (first : UInt8) : Option (Nat × UInt8 × UInt8) :=
  if first < 0xC2 then none
  else if first < 0xE0 then some (2, 0x80, 0xBF)
  else if first = 0xE0 then some (3, 0xA0, 0xBF)
  else if first = 0xED then some (3, 0x80, 0x9F)
  else if first < 0xF0 then some (3, 0x80, 0xBF)
  else if first = 0xF0 then some (4, 0x90, 0xBF)
  else if first < 0xF4 then some (4, 0x80, 0xBF)
  else if first = 0xF4 then some (4, 0x80, 0x8F)
  else none

def Continues (byte : UInt8) : Prop := 0x80 ≤ byte ∧ byte ≤ 0xBF

instance (byte : UInt8) : Decidable (Continues byte) := inferInstanceAs (Decidable (_ ∧ _))

/-- The bits of the bytes of a rune. -/
def runeValue (first : UInt8) (tail : Text) : Nat :=
  tail.foldl (fun value byte => value * 64 + byte.toNat % 64)
    (first.toNat % (if tail.length = 1 then 32 else if tail.length = 2 then 16 else 8))

/-- The rune at the front, and its length. -/
def decodeRune (first : UInt8) (rest : Text) : Nat × Nat :=
  if first < 0x80 then (first.toNat, 1)
  else
    match leader first with
    | none => (RuneError, 1)
    | some (length, low, high) =>
      let tail := rest.take (length - 1)
      if tail.length = length - 1 ∧ tail.all (Continues ·) ∧
          low ≤ tail.headD 0 ∧ tail.headD 0 ≤ high then
        (runeValue first tail, length)
      else (RuneError, 1)

def encodeRune (rune : Nat) : Text :=
  if rune < 0x80 then [UInt8.ofNat rune]
  else if rune < 0x800 then
    [UInt8.ofNat (0xC0 + rune / 64), UInt8.ofNat (0x80 + rune % 64)]
  else if 0x110000 ≤ rune ∨ 0xD800 ≤ rune ∧ rune < 0xE000 then [0xEF, 0xBF, 0xBD]
  else if rune < 0x10000 then
    [UInt8.ofNat (0xE0 + rune / 4096), UInt8.ofNat (0x80 + rune / 64 % 64),
      UInt8.ofNat (0x80 + rune % 64)]
  else
    [UInt8.ofNat (0xF0 + rune / 262144), UInt8.ofNat (0x80 + rune / 4096 % 64),
      UInt8.ofNat (0x80 + rune / 64 % 64), UInt8.ofNat (0x80 + rune % 64)]

/-- The runes of a text with their bytes, where the first few bytes are skipped. -/
def runesFrom : Nat → Text → List (Nat × Text)
  | _, [] => []
  | skip + 1, _ :: rest => runesFrom skip rest
  | 0, first :: rest =>
    let (rune, length) := decodeRune first rest
    (rune, (first :: rest).take length) :: runesFrom (length - 1) rest

def runes (text : Text) : List (Nat × Text) := runesFrom 0 text

/-! ### Upper case and space -/

/-- The upper case of the runes beyond ASCII. -/
structure UpperCase where
  upper : Nat → Nat
  upper_ne_slash : ∀ rune, upper rune ≠ 47

def upperRune (table : UpperCase) (rune : Nat) : Nat :=
  if rune < 128 then if 97 ≤ rune ∧ rune ≤ 122 then rune - 32 else rune
  else table.upper rune

def toUpper (table : UpperCase) (text : Text) : Text :=
  (runes text).flatMap fun rune => encodeRune (upperRune table rune.1)

def isSpace (rune : Nat) : Bool :=
  9 ≤ rune && rune ≤ 13 || rune == 0x20 || rune == 0x85 || rune == 0xA0 || rune == 0x1680 ||
    0x2000 ≤ rune && rune ≤ 0x200A || rune == 0x2028 || rune == 0x2029 || rune == 0x202F ||
    rune == 0x205F || rune == 0x3000

def trimSpace (text : Text) : Text :=
  ((((runes text).dropWhile fun rune => isSpace rune.1).reverse.dropWhile
    fun rune => isSpace rune.1).reverse).flatMap Prod.snd

/-! ### Words -/

variable {table : UpperCase}

theorem decodeRune_of_ascii {first : UInt8} (low : first < 0x80) (rest : Text) :
    decodeRune first rest = (first.toNat, 1) := if_pos low

theorem runes_cons_of_ascii {first : UInt8} (low : first < 0x80) (rest : Text) :
    runes (first :: rest) = (first.toNat, [first]) :: runes rest := by
  rw [runes, runesFrom, decodeRune_of_ascii low]
  rfl

/-- A slash ends every rune before it. -/
theorem decodeRune_append_slash (first : UInt8) (word rest : Text) :
    decodeRune first (word ++ slash :: rest) = decodeRune first word ∧
      (decodeRune first word).2 - 1 ≤ word.length := by
  rw [decodeRune, decodeRune]
  split
  · exact ⟨rfl, Nat.zero_le _⟩
  cases leader first with
  | none => exact ⟨rfl, Nat.zero_le _⟩
  | some found =>
    obtain ⟨length, low, high⟩ := found
    dsimp only
    by_cases enough : length - 1 ≤ word.length
    · rw [List.take_append_of_le_length enough]
      refine ⟨rfl, ?_⟩
      split
      · exact enough
      · exact Nat.zero_le _
    · have short : ¬((word.take (length - 1)).length = length - 1 ∧
          (word.take (length - 1)).all (Continues ·) ∧
          low ≤ (word.take (length - 1)).headD 0 ∧ (word.take (length - 1)).headD 0 ≤ high) := by
        rintro ⟨same, -⟩
        rw [List.length_take] at same
        omega
      have broken : ¬(((word ++ slash :: rest).take (length - 1)).length = length - 1 ∧
          ((word ++ slash :: rest).take (length - 1)).all (Continues ·) ∧
          low ≤ ((word ++ slash :: rest).take (length - 1)).headD 0 ∧
          ((word ++ slash :: rest).take (length - 1)).headD 0 ≤ high) := by
        rintro ⟨-, continues, -⟩
        have inside : slash ∈ (word ++ slash :: rest).take (length - 1) := by
          obtain ⟨more, enough⟩ := Nat.exists_eq_add_of_lt (Nat.lt_of_not_le enough)
          rw [enough, Nat.add_assoc, List.take_length_add_append]
          exact List.mem_append_right _ List.mem_cons_self
        exact absurd (List.all_eq_true.mp continues slash inside) (by decide)
      rw [if_neg short, if_neg broken]
      exact ⟨rfl, Nat.zero_le _⟩

theorem runesFrom_append_slash {skip : Nat} {word : Text} (within : skip ≤ word.length)
    (rest : Text) : runesFrom skip (word ++ slash :: rest) =
      runesFrom skip word ++ (47, [slash]) :: runes rest := by
  induction word generalizing skip with
  | nil =>
    rw [Nat.le_zero.mp within]
    exact runes_cons_of_ascii (by decide) rest
  | cons first word inductionHypothesis =>
    cases skip with
    | succ skip => exact inductionHypothesis (Nat.le_of_succ_le_succ within)
    | zero =>
      obtain ⟨same, below⟩ := decodeRune_append_slash first word rest
      rw [List.cons_append, runesFrom, runesFrom, same]
      dsimp only
      rw [inductionHypothesis below, ← List.cons_append, ← List.cons_append,
        List.take_append_of_le_length]
      rw [List.length_cons]
      omega

theorem runes_append_slash (word rest : Text) :
    runes (word ++ slash :: rest) = runes word ++ (47, [slash]) :: runes rest :=
  runesFrom_append_slash (Nat.zero_le _) rest

theorem toUpper_nil : toUpper table [] = [] := rfl

theorem toUpper_cons_of_ascii {first : UInt8} (low : first < 0x80) (rest : Text) :
    toUpper table (first :: rest) = UInt8.ofNat (upperRune table first.toNat) :: toUpper table rest := by
  have small : upperRune table first.toNat < 0x80 := by
    have low' : first.toNat < 128 := low
    rw [upperRune, if_pos low']
    split
    · omega
    · exact low'
  rw [toUpper, runes_cons_of_ascii low, List.flatMap_cons, encodeRune, if_pos small]
  rfl

theorem toUpper_append_slash (word rest : Text) :
    toUpper table (word ++ slash :: rest) = toUpper table word ++ slash :: toUpper table rest := by
  rw [toUpper, runes_append_slash, List.flatMap_append, List.flatMap_cons]
  rfl

/-- The bytes of the runes beyond ASCII are beyond ASCII. -/
theorem slash_not_mem_encodeRune {rune : Nat} (other : rune ≠ 47) : slash ∉ encodeRune rune := by
  intro inside
  have at_ {n : Nat} (below : n < 256) (same : slash = UInt8.ofNat n) : n = 47 := by
    have value := congrArg UInt8.toNat same
    rw [UInt8.toNat_ofNat_of_lt' below] at value
    exact value.symm
  rw [encodeRune] at inside
  split at inside
  · exact other (at_ (by omega) (List.mem_singleton.mp inside))
  split at inside
  · simp only [List.mem_cons, List.not_mem_nil, or_false] at inside
    rcases inside with same | same
    · have := at_ (by omega) same
      omega
    · have := at_ (by omega) same
      omega
  split at inside
  · revert inside
    decide
  split at inside
  · simp only [List.mem_cons, List.not_mem_nil, or_false] at inside
    rcases inside with same | same | same
    · have := at_ (by omega) same
      omega
    · have := at_ (by omega) same
      omega
    · have := at_ (by omega) same
      omega
  · simp only [List.mem_cons, List.not_mem_nil, or_false] at inside
    rcases inside with same | same | same | same
    · have := at_ (by omega) same
      omega
    · have := at_ (by omega) same
      omega
    · have := at_ (by omega) same
      omega
    · have := at_ (by omega) same
      omega

theorem encodeRune_ne_nil (rune : Nat) : encodeRune rune ≠ [] := by
  rw [encodeRune]
  split
  · nofun
  split
  · nofun
  split
  · nofun
  split
  · nofun
  · nofun

theorem toUpper_ne_nil {word : Text} (some : word ≠ []) : toUpper table word ≠ [] := by
  cases word with
  | nil => exact absurd rfl some
  | cons first rest =>
    rw [toUpper, runes, runesFrom]
    dsimp only
    rw [List.flatMap_cons]
    exact List.append_ne_nil_of_left_ne_nil (encodeRune_ne_nil _) _

/-- The second byte of a rune that needs all of its bytes is bounded from below. -/
theorem leader_cases {first low high : UInt8} {length : Nat}
    (lead : leader first = some (length, low, high)) :
    (length = 2 ∧ 194 ≤ first.toNat ∧ first.toNat < 224) ∨
      (length = 3 ∧ 224 ≤ first.toNat ∧ first.toNat < 240 ∧
        (first.toNat = 224 → 160 ≤ low.toNat)) ∨
      (length = 4 ∧ 240 ≤ first.toNat ∧ first.toNat < 245 ∧
        (first.toNat = 240 → 144 ≤ low.toNat)) := by
  rw [leader] at lead
  simp only [UInt8.lt_iff_toNat_lt, ← UInt8.toNat_inj, UInt8.reduceToNat] at lead
  split at lead
  · cases lead
  split at lead
  · cases lead
    exact .inl ⟨rfl, by omega, by omega⟩
  split at lead
  · cases lead
    exact .inr (.inl ⟨rfl, by omega, by omega, fun _ => by decide⟩)
  split at lead
  · cases lead
    exact .inr (.inl ⟨rfl, by omega, by omega, fun same => absurd same (by omega)⟩)
  split at lead
  · cases lead
    exact .inr (.inl ⟨rfl, by omega, by omega, fun same => absurd same (by omega)⟩)
  split at lead
  · cases lead
    exact .inr (.inr ⟨rfl, by omega, by omega, fun _ => by decide⟩)
  split at lead
  · cases lead
    exact .inr (.inr ⟨rfl, by omega, by omega, fun same => absurd same (by omega)⟩)
  split at lead
  · cases lead
    exact .inr (.inr ⟨rfl, by omega, by omega, fun same => absurd same (by omega)⟩)
  · cases lead

/-- A rune of more than one byte is beyond ASCII. -/
theorem le_runeValue {first low high : UInt8} {length : Nat} {tail : Text}
    (lead : leader first = some (length, low, high)) (long : tail.length = length - 1)
    (continues : ∀ byte ∈ tail, Continues byte) (within : low ≤ tail.headD 0) :
    128 ≤ runeValue first tail := by
  rw [UInt8.le_iff_toNat_le] at within
  obtain ⟨rfl, atLeast, below⟩ | ⟨rfl, atLeast, below, bounded⟩ | ⟨rfl, atLeast, below, bounded⟩ :=
    leader_cases lead
  · obtain ⟨second, rfl⟩ := List.length_eq_one_iff.mp long
    show 128 ≤ first.toNat % 32 * 64 + second.toNat % 64
    omega
  · obtain ⟨second, third, rfl⟩ := List.length_eq_two.mp long
    have last : second.toNat ≤ 191 := (continues second List.mem_cons_self).2
    have least : low.toNat ≤ second.toNat := within
    show 128 ≤ (first.toNat % 16 * 64 + second.toNat % 64) * 64 + third.toNat % 64
    by_cases shortest : first.toNat = 224
    · have := bounded shortest
      omega
    · omega
  · obtain ⟨second, third, fourth, rfl⟩ := List.length_eq_three.mp long
    have last : second.toNat ≤ 191 := (continues second List.mem_cons_self).2
    have least : low.toNat ≤ second.toNat := within
    show 128 ≤ ((first.toNat % 8 * 64 + second.toNat % 64) * 64 + third.toNat % 64) * 64 +
      fourth.toNat % 64
    by_cases shortest : first.toNat = 240
    · have := bounded shortest
      omega
    · omega

theorem decodeRune_ne_slash {first : UInt8} (other : first ≠ slash) (rest : Text) :
    (decodeRune first rest).1 ≠ 47 := by
  rw [decodeRune]
  split
  · exact fun same => other (UInt8.toNat_inj.mp same)
  · cases lead : leader first with
    | none => exact (by decide : RuneError ≠ 47)
    | some found =>
      obtain ⟨length, low, high⟩ := found
      dsimp only
      split
      · rename_i valid
        obtain ⟨long, continues, within, -⟩ := valid
        have inner : ∀ byte ∈ rest.take (length - 1), Continues byte :=
          fun byte member => of_decide_eq_true (List.all_eq_true.mp continues byte member)
        have := le_runeValue lead long inner within
        exact fun same => by omega
      · decide

/-- A text without slashes has no rune that is a slash. -/
theorem rune_ne_slash {skip : Nat} {word : Text} (noSlash : slash ∉ word) {rune : Nat × Text}
    (member : rune ∈ runesFrom skip word) : rune.1 ≠ 47 := by
  induction word generalizing skip with
  | nil =>
    rw [runesFrom] at member
    cases member
  | cons first word inductionHypothesis =>
    have later := fun inside => noSlash (List.mem_cons_of_mem first inside)
    cases skip with
    | succ skip => exact inductionHypothesis later member
    | zero =>
      rw [runesFrom] at member
      rcases List.mem_cons.mp member with rfl | rest
      · exact decodeRune_ne_slash (fun same => noSlash (same ▸ List.mem_cons_self)) word
      · exact inductionHypothesis later rest

theorem slash_not_mem_toUpper {word : Text} (noSlash : slash ∉ word) :
    slash ∉ toUpper table word := by
  intro inside
  obtain ⟨rune, member, encoded⟩ := List.mem_flatMap.mp inside
  have other := rune_ne_slash noSlash member
  refine slash_not_mem_encodeRune (fun same => ?_) encoded
  rw [upperRune] at same
  split at same
  · split at same
    · omega
    · exact other same
  · exact table.upper_ne_slash _ same

/-- The words of the text in upper case are the words in upper case. -/
theorem splitOn_toUpper_intercalate {words : List Text} (noSlash : ∀ word ∈ words, slash ∉ word)
    (some : words ≠ []) :
    (toUpper table ([slash].intercalate words)).splitOn slash = words.map (toUpper table) := by
  have joined : toUpper table ([slash].intercalate words) =
      [slash].intercalate (words.map (toUpper table)) := by
    induction words with
    | nil => exact absurd rfl some
    | cons word rest inductionHypothesis =>
      cases rest with
      | nil => rw [List.intercalate_singleton, List.map_singleton, List.intercalate_singleton]
      | cons next rest =>
        rw [List.intercalate_cons_cons, List.append_assoc, List.singleton_append,
          toUpper_append_slash, inductionHypothesis
            (fun other member => noSlash other (List.mem_cons_of_mem _ member)) (by simp)]
        show _ = [slash].intercalate (toUpper table word :: toUpper table next :: _)
        rw [List.intercalate_cons_cons, List.append_assoc, List.singleton_append]
        rfl
  rw [joined, List.splitOn_intercalate slash _ (by simpa using some)]
  intro upper inside
  obtain ⟨word, member, rfl⟩ := List.mem_map.mp inside
  exact slash_not_mem_toUpper (noSlash word member)

end Frobio.Utf8
