/-
This file says what the patterns of `ncl/regexp.c` are for, and that `re_match` finds it.

`Expression` is a pattern as a reader takes it: atoms, each of them once, at most once, or many
times, with an anchor in front or behind. Its atoms have letters, and its pieces have a language. A
pattern fits if it has no more objects than `re_compiled` holds and its classes leave room in
`ccl_buf`.
-/

import Frobio.Lib.Matching
import Frobio.Ncl.Regexp

namespace Frobio.Ncl.Regexp

open Froblib (char)
open Matching

/-! ### Letters -/

/-- What `\d`, `\w` and `\s` are for, and their opposites. -/
inductive Shorthand
  | digit
  | notDigit
  | alpha
  | notAlpha
  | whitespace
  | notWhitespace

namespace Shorthand

def letter : Shorthand → UInt8
  | digit => 100
  | notDigit => 68
  | alpha => 119
  | notAlpha => 87
  | whitespace => 115
  | notWhitespace => 83

def object : Shorthand → Regex
  | digit => .digit
  | notDigit => .notDigit
  | alpha => .alpha
  | notAlpha => .notAlpha
  | whitespace => .whitespace
  | notWhitespace => .notWhitespace

def IsDigit (c : UInt8) : Prop := 48 ≤ c ∧ c ≤ 57

def IsWord (c : UInt8) : Prop := c = 95 ∨ 97 ≤ c ∧ c ≤ 122 ∨ 65 ≤ c ∧ c ≤ 90 ∨ IsDigit c

def IsSpace (c : UInt8) : Prop := c = 32 ∨ 9 ≤ c ∧ c ≤ 13

def Has (c : UInt8) : Shorthand → Prop
  | digit => IsDigit c
  | notDigit => ¬IsDigit c
  | alpha => IsWord c
  | notAlpha => ¬IsWord c
  | whitespace => IsSpace c
  | notWhitespace => ¬IsSpace c

end Shorthand

/-- A character that stands for itself behind a backslash. -/
def Escapable (c : UInt8) : Prop := c ≠ 0 ∧ ismetachar c = false

/-- What there is in a class, apart from a hyphen at either end. -/
inductive Item
  | single (c : UInt8)
  | range (first last : UInt8)
  | shorthand (kind : Shorthand)
  | escaped (c : UInt8)

namespace Item

def bytes : Item → List UInt8
  | single c => [c]
  | range first last => [first, 45, last]
  | shorthand kind => [92, kind.letter]
  | escaped c => [92, c]

def Plain (c : UInt8) : Prop := c ≠ 0 ∧ c ≠ 45 ∧ c ≠ 92 ∧ c ≠ 93

def Valid : Item → Prop
  | single c => Plain c
  | range first last => Plain first ∧ Plain last
  | shorthand _ => True
  | escaped c => Escapable c ∧ c ≠ 45

def Has (signed : Bool) (c : UInt8) : Item → Prop
  | single d => c = d
  | range first last => c = first ∨ c = last ∨
      char signed first ≤ char signed c ∧ char signed c ≤ char signed last
  | shorthand kind => kind.Has c
  | escaped d => c = d

def isRange : Item → Bool
  | range _ _ => true
  | _ => false

end Item

/-- A class. -/
structure Class where
  inverted : Bool
  /-- A hyphen is its first character. -/
  leading : Bool
  items : List Item
  /-- A hyphen is its last character. -/
  trailing : Bool

namespace Class

def hyphen (there : Bool) : List UInt8 := if there then [45] else []

def bytes (ccl : Class) : List UInt8 :=
  hyphen ccl.leading ++ (ccl.items.flatMap Item.bytes ++ hyphen ccl.trailing)

/-- A class that is not inverted does not begin with a caret. -/
structure Valid (ccl : Class) : Prop where
  items : ∀ item ∈ ccl.items, item.Valid
  caret : ccl.inverted = false → ccl.bytes.head? ≠ some 94

/-- A hyphen is looked for in front of the first range only, as that has a hyphen of its own. -/
def Lists (signed : Bool) (ccl : Class) (c : UInt8) : Prop :=
  if c = 45 then
    ccl.leading = true ∨ (∃ item ∈ ccl.items.takeWhile (!·.isRange), item.Has signed c) ∨
      ccl.trailing = true ∧ ∀ item ∈ ccl.items, item.isRange = false
  else ∃ item ∈ ccl.items, item.Has signed c

end Class

/-- What stands for one character. -/
inductive Atom
  | dot
  | plain (c : UInt8)
  | escaped (c : UInt8)
  | shorthand (kind : Shorthand)
  | ccl (inside : Class)

namespace Atom

def bytes : Atom → List UInt8
  | dot => [46]
  | plain c => [c]
  | escaped c => [92, c]
  | shorthand kind => [92, kind.letter]
  | ccl inside => 91 :: (if inside.inverted then [94] else []) ++ inside.bytes ++ [93]

def Valid : Atom → Prop
  | dot => True
  | plain c => c ≠ 0 ∧ c ≠ 91 ∧ c ≠ 92 ∧ plainObject c = .char c
  | escaped c => Escapable c
  | shorthand _ => True
  | ccl inside => inside.Valid

def object : Atom → Regex
  | dot => .dot
  | plain c => .char c
  | escaped c => .char c
  | shorthand kind => kind.object
  | ccl inside =>
    if inside.inverted then .invCharClass inside.bytes else .charClass inside.bytes

/-- What it takes of `ccl_buf`. -/
def space : Atom → Nat
  | ccl inside => inside.bytes.length + 1
  | _ => 0

def Has (signed : Bool) (c : UInt8) : Atom → Prop
  | dot => True
  | plain d => c = d
  | escaped d => c = d
  | shorthand kind => kind.Has c
  | ccl inside => if inside.inverted then ¬inside.Lists signed c else inside.Lists signed c

end Atom

/-! ### Expressions -/

/-- How often an atom is there. -/
inductive Times
  | once
  | optional
  | any
  | some

/-- What becomes an object. -/
inductive Token
  | beginning
  | ending
  | questionMark
  | star
  | plus
  | atom (inner : Atom)

namespace Token

def bytes : Token → List UInt8
  | beginning => [94]
  | ending => [36]
  | questionMark => [63]
  | star => [42]
  | plus => [43]
  | atom inner => inner.bytes

def object : Token → Regex
  | beginning => .beginning
  | ending => .ending
  | questionMark => .questionMark
  | star => .star
  | plus => .plus
  | atom inner => inner.object

def space : Token → Nat
  | atom inner => inner.space
  | _ => 0

def Valid : Token → Prop
  | atom inner => inner.Valid
  | _ => True

end Token

def Times.tokens : Times → List Token
  | once => []
  | optional => [.questionMark]
  | any => [.star]
  | some => [.plus]

open Computability in
def Times.language (L : Language UInt8) : Times → Language UInt8
  | once => L
  | optional => 1 + L
  | any => L∗
  | some => L * L∗

/-- An atom and how often it is there. -/
structure Piece where
  atom : Atom
  times : Times

namespace Piece

def tokens (piece : Piece) : List Token := .atom piece.atom :: piece.times.tokens

def language (signed : Bool) (piece : Piece) : Language UInt8 :=
  piece.times.language (letters (piece.atom.Has signed))

end Piece

/-- A pattern. -/
structure Expression where
  anchored : Bool
  pieces : List Piece
  toEnd : Bool

namespace Expression

variable (expression : Expression)

/-- What comes behind the anchor in front. -/
def bodyTokens : List Token :=
  expression.pieces.flatMap Piece.tokens ++ if expression.toEnd then [.ending] else []

def tokens : List Token :=
  (if expression.anchored then [.beginning] else []) ++ expression.bodyTokens

def bytes : List UInt8 := expression.tokens.flatMap Token.bytes

def language (signed : Bool) : Language UInt8 :=
  (expression.pieces.map (Piece.language signed)).prod

/-- The atoms are valid, and there is room for the objects and for the classes. -/
structure Fits : Prop where
  valid : ∀ piece ∈ expression.pieces, piece.atom.Valid
  objects : expression.tokens.length < MAX_REGEXP_OBJECTS
  classes : (expression.tokens.map Token.space).sum < MAX_CHAR_CLASS_LEN

/-- A word of the language is in front, and with the anchor behind it is the whole text. -/
def Begins (signed : Bool) (text : List UInt8) : Prop :=
  Follows (expression.language signed) (fun back => expression.toEnd = true → back = []) text

/-- The first match is there. A match of nothing at the end of the text does not count. -/
def FirstMatch (signed : Bool) (text : List UInt8) (idx : Nat) : Prop :=
  if expression.anchored then idx = 0 ∧ expression.Begins signed text
  else FirstAt (expression.Begins signed) text idx

end Expression

/-! ### Letters are matched -/

section

variable {signed : Bool} {c : UInt8}

theorem matchdigit_iff : matchdigit c = true ↔ Shorthand.IsDigit c := by
  simp only [matchdigit, Shorthand.IsDigit, Bool.and_eq_true, decide_eq_true_eq]

theorem matchalphanum_iff : matchalphanum c = true ↔ Shorthand.IsWord c := by
  simp only [matchalphanum, matchalpha, Shorthand.IsWord, Bool.or_eq_true, Bool.and_eq_true,
    beq_iff_eq, decide_eq_true_eq, matchdigit_iff, or_assoc]

theorem matchwhitespace_iff : matchwhitespace c = true ↔ Shorthand.IsSpace c := by
  simp only [matchwhitespace, Shorthand.IsSpace, Bool.or_eq_true, beq_iff_eq, UInt8.le_iff_toNat_le,
    ← UInt8.toNat_inj, UInt8.toNat_ofNat, or_assoc]
  omega

theorem not_iff {b : Bool} {p : Prop} (iff : b = true ↔ p) : (!b) = true ↔ ¬p := by
  rw [Bool.not_eq_true', ← Bool.not_eq_true, iff]

theorem matchone_shorthand (kind : Shorthand) :
    ∃ answer, matchone signed kind.object c = some answer ∧ (answer = true ↔ kind.Has c) := by
  cases kind with
  | digit => exact ⟨_, rfl, matchdigit_iff⟩
  | notDigit => exact ⟨_, rfl, not_iff matchdigit_iff⟩
  | alpha => exact ⟨_, rfl, matchalphanum_iff⟩
  | notAlpha => exact ⟨_, rfl, not_iff matchalphanum_iff⟩
  | whitespace => exact ⟨_, rfl, matchwhitespace_iff⟩
  | notWhitespace => exact ⟨_, rfl, not_iff matchwhitespace_iff⟩

theorem matchmetachar_letter (kind : Shorthand) :
    matchmetachar c kind.letter = true ↔ kind.Has c := by
  cases kind with
  | digit => exact matchdigit_iff
  | notDigit => exact not_iff matchdigit_iff
  | alpha => exact matchalphanum_iff
  | notAlpha => exact not_iff matchalphanum_iff
  | whitespace => exact matchwhitespace_iff
  | notWhitespace => exact not_iff matchwhitespace_iff

theorem ismetachar_letter (kind : Shorthand) : ismetachar kind.letter = true := by
  cases kind <;> rfl

theorem Escapable.not_letters {d : UInt8} (escapable : Escapable d) :
    d ≠ 115 ∧ d ≠ 83 ∧ d ≠ 119 ∧ d ≠ 87 ∧ d ≠ 100 ∧ d ≠ 68 := by
  have plain := escapable.2
  simp only [ismetachar, Bool.or_eq_false_iff, beq_eq_false_iff_ne] at plain
  obtain ⟨⟨⟨⟨⟨notSpace, notNotSpace⟩, notAlpha⟩, notNotAlpha⟩, notDigit⟩, notNotDigit⟩ := plain
  exact ⟨notSpace, notNotSpace, notAlpha, notNotAlpha, notDigit, notNotDigit⟩

theorem matchmetachar_escaped {d : UInt8} (escapable : Escapable d) :
    matchmetachar c d = (c == d) := by
  obtain ⟨notSpace, notNotSpace, notAlpha, notNotAlpha, notDigit, notNotDigit⟩ :=
    escapable.not_letters
  rw [matchmetachar, if_neg notDigit, if_neg notNotDigit, if_neg notAlpha, if_neg notNotAlpha,
    if_neg notSpace, if_neg notNotSpace]

theorem escapedObject_escaped {d : UInt8} (escapable : Escapable d) :
    escapedObject d = .char d := by
  obtain ⟨notSpace, notNotSpace, notAlpha, notNotAlpha, notDigit, notNotDigit⟩ :=
    escapable.not_letters
  rw [escapedObject, if_neg notDigit, if_neg notNotDigit, if_neg notAlpha, if_neg notNotAlpha,
    if_neg notSpace, if_neg notNotSpace]

theorem escapedObject_letter (kind : Shorthand) : escapedObject kind.letter = kind.object := by
  cases kind <;> rfl

/-! ### Classes are matched -/

/-- No range begins here. -/
theorem matchrange_of_head {first : UInt8} {rest : List UInt8}
    (apart : rest.head? ≠ some 45 ∨ rest = [45] ∨ first = 45) :
    matchrange signed c (first :: rest) = false := by
  cases rest with
  | nil => rfl
  | cons d rest =>
    cases rest with
    | nil =>
      rw [matchrange]
      rintro _ _ _ ⟨⟩
    | cons last rest =>
      by_cases hyphen : d = 45
      · rcases apart with apart | apart | apart
        · rw [hyphen] at apart
          exact absurd rfl apart
        · cases apart
        · rw [hyphen, apart, matchrange]
          simp
      · rw [matchrange]
        rintro _ _ _ ⟨⟩
        exact hyphen rfl

/-- What comes behind an item of a class. -/
def rest (items : List Item) (trailing : Bool) : List UInt8 :=
  items.flatMap Item.bytes ++ Class.hyphen trailing

theorem head_rest {items : List Item} (valid : ∀ item ∈ items, item.Valid) (trailing : Bool) :
    (rest items trailing).head? ≠ some 45 ∨ rest items trailing = [45] := by
  cases items with
  | nil =>
    cases trailing with
    | false => exact .inl (by decide)
    | true => exact .inr rfl
  | cons item items =>
    have first := valid item List.mem_cons_self
    refine .inl ?_
    cases item with
    | single d => exact fun same => first.2.1 (Option.some.inj same)
    | range a b => exact fun same => first.1.2.1 (Option.some.inj same)
    | shorthand kind => exact (by decide : (some 92 : Option UInt8) ≠ some 45)
    | escaped d => exact (by decide : (some 92 : Option UInt8) ≠ some 45)

theorem matchcharclass_single {before d : UInt8} {next : List UInt8}
    (noRange : matchrange signed c (d :: next) = false) (notEscape : d ≠ 92) :
    matchcharclass signed c before (d :: next) =
      if c = d then if c = 45 then before == 0 || next.isEmpty else true
      else matchcharclass signed c d next := by
  rw [matchcharclass.eq_def]
  dsimp only
  rw [noRange, if_neg Bool.false_ne_true, if_neg notEscape]

theorem matchcharclass_escape {before d : UInt8} {next : List UInt8} (more : d ≠ 0)
    (noRange : d ≠ 45) : matchcharclass signed c before (92 :: d :: next) =
      if matchmetachar c d then true
      else if c = d ∧ !ismetachar c then true else matchcharclass signed c d next := by
  have apart : matchrange signed c (92 :: d :: next) = false :=
    matchrange_of_head (.inl fun same => noRange (Option.some.inj same))
  rw [matchcharclass.eq_def]
  dsimp only
  rw [apart, if_neg Bool.false_ne_true, if_pos rfl, if_neg more]

/-- A character is found in an item, or it is looked for in what comes behind. -/
theorem matchcharclass_item {item : Item} (valid : item.Valid)
    (plain : c ≠ 45 ∨ item.isRange = false) {next : List UInt8}
    (apart : next.head? ≠ some 45 ∨ next = [45]) (before : UInt8) :
    (item.Has signed c ∧ matchcharclass signed c before (item.bytes ++ next) = true) ∨
    (¬item.Has signed c ∧ ∃ last, matchcharclass signed c before (item.bytes ++ next) =
      matchcharclass signed c last next) := by
  have noRange : ∀ d, matchrange signed c (d :: next) = false := fun d =>
    matchrange_of_head (apart.elim .inl fun only => .inr (.inl only))
  cases item with
  | single d =>
    have step : matchcharclass signed c before (d :: next) = _ :=
      matchcharclass_single (noRange d) valid.2.2.1
    by_cases same : c = d
    · refine .inl ⟨same, step.trans ?_⟩
      rw [if_pos same, if_neg fun hyphen => valid.2.1 (same.symm.trans hyphen)]
    · exact .inr ⟨same, d, step.trans (if_neg same)⟩
  | range a b =>
    have notHyphen : c ≠ 45 := plain.resolve_right fun same => Bool.noConfusion same
    obtain ⟨⟨aEnd, aHyphen, aEscape, -⟩, ⟨bEnd, bHyphen, bEscape, -⟩⟩ := valid
    have second : matchcharclass signed c a (45 :: b :: next) =
        if c = b then true else matchcharclass signed c b next := by
      rw [matchcharclass_single (matchrange_of_head (.inr (.inr rfl))) (by decide),
        if_neg notHyphen, matchcharclass_single (noRange b) bEscape, if_neg notHyphen]
    have here : matchrange signed c (a :: 45 :: b :: next) =
        (decide (char signed a ≤ char signed c) && decide (char signed c ≤ char signed b)) := by
      rw [matchrange, bne_iff_ne.mpr notHyphen, bne_iff_ne.mpr aEnd, bne_iff_ne.mpr aHyphen,
        bne_iff_ne.mpr bEnd]
      rfl
    by_cases between : char signed a ≤ char signed c ∧ char signed c ≤ char signed b
    · refine .inl ⟨.inr (.inr between), ?_⟩
      have inRange : matchrange signed c (a :: 45 :: b :: next) = true := by
        rw [here, decide_eq_true between.1, decide_eq_true between.2]
        rfl
      exact (matchcharclass.eq_def ..).trans (if_pos inRange)
    · have noRange : matchrange signed c (a :: 45 :: b :: next) = false := by
        rw [here, ← Bool.decide_and, decide_eq_false between]
      have step : matchcharclass signed c before (a :: 45 :: b :: next) =
          if c = a then true else if c = b then true else matchcharclass signed c b next := by
        rw [matchcharclass_single noRange aEscape, if_neg notHyphen, second]
      by_cases first : c = a
      · exact .inl ⟨.inl first, step.trans (if_pos first)⟩
      by_cases last : c = b
      · exact .inl ⟨.inr (.inl last), (step.trans (if_neg first)).trans (if_pos last)⟩
      · refine .inr ⟨?_, b, (step.trans (if_neg first)).trans (if_neg last)⟩
        rintro (same | same | same)
        · exact first same
        · exact last same
        · exact between same
  | shorthand kind =>
    have step : matchcharclass signed c before (92 :: kind.letter :: next) = _ :=
      matchcharclass_escape (by cases kind <;> decide) (by cases kind <;> decide)
    by_cases has : kind.Has c
    · exact .inl ⟨has, step.trans (if_pos ((matchmetachar_letter kind).mpr has))⟩
    · refine .inr ⟨has, kind.letter, step.trans ?_⟩
      rw [if_neg fun found => has ((matchmetachar_letter kind).mp found), if_neg]
      rintro ⟨same, other⟩
      rw [same, ismetachar_letter kind] at other
      exact Bool.false_ne_true other
  | escaped d =>
    have step : matchcharclass signed c before (92 :: d :: next) = _ :=
      matchcharclass_escape valid.1.1 valid.2
    rw [matchmetachar_escaped valid.1] at step
    by_cases same : c = d
    · exact .inl ⟨same, step.trans (if_pos (beq_iff_eq.mpr same))⟩
    · refine .inr ⟨same, d, step.trans ?_⟩
      rw [if_neg fun found => same (beq_iff_eq.mp found), if_neg fun both => same both.1]

theorem matchcharclass_rest {items : List Item} (valid : ∀ item ∈ items, item.Valid)
    (trailing : Bool) (notHyphen : c ≠ 45) (before : UInt8) :
    matchcharclass signed c before (rest items trailing) = true ↔
      ∃ item ∈ items, item.Has signed c := by
  induction items generalizing before with
  | nil =>
    have none : ¬∃ item ∈ ([] : List Item), item.Has signed c := by simp
    refine iff_of_false ?_ none
    cases trailing with
    | false => exact Bool.false_ne_true
    | true =>
      have only : matchcharclass signed c before [45] = false := by
        rw [matchcharclass_single rfl (by decide), if_neg notHyphen]
        rfl
      exact Bool.not_eq_true _ ▸ only
  | cons item items inductionHypothesis =>
    obtain ⟨first, others⟩ := List.forall_mem_cons.mp valid
    have place : rest (item :: items) trailing = item.bytes ++ rest items trailing := by
      rw [rest, rest, List.flatMap_cons, List.append_assoc]
    rw [place, List.exists_mem_cons_iff]
    rcases matchcharclass_item first (.inl notHyphen) (head_rest others trailing) before with
      ⟨has, found⟩ | ⟨not, last, found⟩
    · exact iff_of_true found (.inl has)
    · rw [found, inductionHypothesis others last, or_iff_right not]

/-- A hyphen is not looked for behind a range. -/
theorem matchcharclass_hyphen {items : List Item} (valid : ∀ item ∈ items, item.Valid)
    (trailing : Bool) (before : UInt8) :
    matchcharclass signed 45 before (rest items trailing) = true ↔
      (∃ item ∈ items.takeWhile (!·.isRange), item.Has signed 45) ∨
        trailing = true ∧ ∀ item ∈ items, item.isRange = false := by
  induction items generalizing before with
  | nil =>
    cases trailing with
    | false => simp [rest, Class.hyphen, matchcharclass]
    | true =>
      have only : matchcharclass signed 45 before [45] = true := by
        rw [matchcharclass_single rfl (by decide), if_pos rfl, if_pos rfl]
        exact Bool.or_true _
      exact iff_of_true only (.inr ⟨rfl, by simp⟩)
  | cons item items inductionHypothesis =>
    obtain ⟨first, others⟩ := List.forall_mem_cons.mp valid
    have place : rest (item :: items) trailing = item.bytes ++ rest items trailing := by
      rw [rest, rest, List.flatMap_cons, List.append_assoc]
    rw [place]
    cases isRange : item.isRange with
    | true =>
      have none : ¬((∃ found ∈ (item :: items).takeWhile (!·.isRange), found.Has signed 45) ∨
          trailing = true ∧ ∀ found ∈ item :: items, found.isRange = false) := by
        rw [List.takeWhile_cons_of_neg (by rw [isRange]; exact Bool.false_ne_true),
          List.forall_mem_cons, isRange]
        simp
      refine iff_of_false ?_ none
      cases item with
      | range a b =>
        have notEnd : a ≠ 0 := first.1.1
        have first : matchcharclass signed 45 before (a :: 45 :: b :: rest items trailing) =
            matchcharclass signed 45 a (45 :: b :: rest items trailing) :=
          (matchcharclass_single rfl first.1.2.2.1).trans (if_neg (Ne.symm first.1.2.1))
        have second : matchcharclass signed 45 a (45 :: b :: rest items trailing) = false := by
          rw [matchcharclass_single (matchrange_of_head (.inr (.inr rfl))) (by decide), if_pos rfl,
            if_pos rfl, beq_eq_false_iff_ne.mpr notEnd]
          rfl
        exact Bool.not_eq_true _ ▸ first.trans second
      | single _ => cases isRange
      | shorthand _ => cases isRange
      | escaped _ => cases isRange
    | false =>
      rw [List.takeWhile_cons_of_pos (by rw [isRange]; rfl), List.exists_mem_cons_iff,
        List.forall_mem_cons, and_iff_right isRange]
      rcases matchcharclass_item first (.inr isRange) (head_rest others trailing) before with
        ⟨has, found⟩ | ⟨not, last, found⟩
      · exact iff_of_true found (.inl (.inl has))
      · rw [found, inductionHypothesis others last, or_iff_right not]

theorem matchcharclass_iff {ccl : Class} (valid : ccl.Valid) :
    matchcharclass signed c 0 ccl.bytes = true ↔ ccl.Lists signed c := by
  obtain ⟨inverted, leading, items, trailing⟩ := ccl
  have inItems := valid.items
  rw [Class.Lists]
  by_cases hyphen : c = 45
  · rw [if_pos hyphen, hyphen]
    cases leading with
    | true =>
      refine iff_of_true ?_ (.inl rfl)
      exact (matchcharclass_single (matchrange_of_head (.inr (.inr rfl))) (by decide)).trans rfl
    | false =>
      rw [or_iff_right Bool.false_ne_true]
      exact matchcharclass_hyphen inItems trailing 0
  · rw [if_neg hyphen]
    cases leading with
    | true =>
      have step : matchcharclass signed c 0 (45 :: rest items trailing) =
          matchcharclass signed c 45 (rest items trailing) :=
        (matchcharclass_single (matchrange_of_head (.inr (.inr rfl))) (by decide)).trans
          (if_neg hyphen)
      exact step ▸ matchcharclass_rest inItems trailing hyphen 45
    | false => exact matchcharclass_rest inItems trailing hyphen 0

theorem matchone_atom {atom : Atom} (valid : atom.Valid) :
    ∃ answer, matchone signed atom.object c = some answer ∧
      (answer = true ↔ atom.Has signed c) := by
  cases atom with
  | dot => exact ⟨true, rfl, iff_of_true rfl trivial⟩
  | plain d => exact ⟨d == c, rfl, beq_iff_eq.trans eq_comm⟩
  | escaped d => exact ⟨d == c, rfl, beq_iff_eq.trans eq_comm⟩
  | shorthand kind => exact matchone_shorthand kind
  | ccl inside =>
    have right : matchcharclass signed c 0 inside.bytes = true ↔ _ := matchcharclass_iff valid
    rw [Atom.object, Atom.Has]
    cases inside.inverted with
    | true => exact ⟨_, rfl, not_iff right⟩
    | false => exact ⟨_, rfl, right⟩

end

/-! ### Patterns are compiled -/

/-- The characters are copied. -/
def Copied (l : List UInt8) : Prop :=
  ∀ (idx : Nat) (tail body next : List UInt8) (n : Nat), idx + l.length < MAX_CHAR_CLASS_LEN →
    copyClass (idx + l.length) tail = .ok (body, n, next) →
    copyClass idx (l ++ tail) = .ok (l ++ body, n, next)

theorem Copied.nil : Copied [] := fun _ _ _ _ _ _ copies => copies

theorem Copied.append {l l' : List UInt8} (first : Copied l) (second : Copied l') :
    Copied (l ++ l') := by
  intro idx tail body next n room copies
  rw [List.length_append, ← Nat.add_assoc] at room copies
  rw [List.append_assoc, List.append_assoc]
  exact first _ _ _ _ _ (Nat.lt_of_le_of_lt (Nat.le_add_right _ _) room)
    (second _ _ _ _ _ room copies)

theorem Copied.single {c : UInt8} (notEnd : c ≠ 0) (notClosed : c ≠ 93) (notEscape : c ≠ 92) :
    Copied [c] := by
  intro idx tail body next n room copies
  have room : ¬MAX_CHAR_CLASS_LEN ≤ idx := by
    have : [c].length = 1 := rfl
    omega
  rw [List.singleton_append, copyClass.eq_def]
  dsimp only
  rw [if_neg fun both => both.elim notClosed notEnd, if_neg notEscape, if_neg room]
  rw [List.length_singleton] at copies
  rw [copies]
  rfl

theorem Copied.escape (d : UInt8) : Copied [92, d] := by
  intro idx tail body next n room copies
  have room : ¬MAX_CHAR_CLASS_LEN - 1 ≤ idx := by
    have : [92, d].length = 2 := rfl
    omega
  have copies : copyClass (idx + 2) tail = .ok (body, n, next) := copies
  rw [List.cons_append, List.singleton_append, copyClass.eq_def]
  dsimp only
  rw [if_neg (by decide), if_pos rfl, if_neg room, copies]
  rfl

theorem copied_hyphen (there : Bool) : Copied (Class.hyphen there) := by
  cases there with
  | true => exact Copied.single (by decide) (by decide) (by decide)
  | false => exact Copied.nil

theorem copied_item {item : Item} (valid : item.Valid) : Copied item.bytes := by
  have plain : ∀ {c : UInt8}, Item.Plain c → Copied [c] := fun valid =>
    Copied.single valid.1 valid.2.2.2 valid.2.2.1
  cases item with
  | single d => exact plain valid
  | range a b => exact (plain valid.1).append ((copied_hyphen true).append (plain valid.2))
  | shorthand kind => exact Copied.escape kind.letter
  | escaped d => exact Copied.escape d

theorem copied_items {items : List Item} (valid : ∀ item ∈ items, item.Valid) :
    Copied (items.flatMap Item.bytes) := by
  induction items with
  | nil => exact Copied.nil
  | cons item items inductionHypothesis =>
    obtain ⟨first, others⟩ := List.forall_mem_cons.mp valid
    exact (copied_item first).append (inductionHypothesis others)

/-- A class is copied up to where it is closed. -/
theorem copyClass_bytes {ccl : Class} (valid : ccl.Valid) {idx : Nat}
    (room : idx + ccl.bytes.length < MAX_CHAR_CLASS_LEN) (pattern : List UInt8) :
    copyClass idx (ccl.bytes ++ 93 :: pattern) =
      .ok (ccl.bytes, idx + ccl.bytes.length + 1, pattern) := by
  have copied : Copied ccl.bytes :=
    (copied_hyphen _).append ((copied_items valid.items).append (copied_hyphen _))
  have closed : copyClass (idx + ccl.bytes.length) (93 :: pattern) =
      .ok ([], idx + ccl.bytes.length + 1, pattern) := by
    rw [copyClass.eq_def]
    dsimp only
    rw [if_pos (.inl rfl), if_neg (Nat.not_le.mpr room)]
  have := copied _ _ _ _ _ room closed
  rwa [List.append_nil] at this

section

variable {rounds idx j : Nat} {pattern : List UInt8} {objects : List Regex}

theorem compileLoop_plain {c : UInt8} (space : j + 1 < MAX_REGEXP_OBJECTS)
    (notEnd : c ≠ 0) (notEscape : c ≠ 92) (notClass : c ≠ 91)
    (compiled : compileLoop rounds idx (j + 1) pattern = .ok objects) :
    compileLoop (rounds + 1) idx j (c :: pattern) = .ok (plainObject c :: objects) := by
  rw [compileLoop.eq_def]
  dsimp only
  rw [if_neg fun both => both.elim notEnd (Nat.not_le.mpr space), if_neg notEscape,
    if_neg notClass, compiled]
  rfl

theorem compileLoop_escape {c : UInt8} (space : j + 1 < MAX_REGEXP_OBJECTS) (notEnd : c ≠ 0)
    (compiled : compileLoop rounds idx (j + 1) pattern = .ok objects) :
    compileLoop (rounds + 1) idx j (92 :: c :: pattern) = .ok (escapedObject c :: objects) := by
  rw [compileLoop.eq_def]
  dsimp only
  rw [if_neg fun both => both.elim (by decide) (Nat.not_le.mpr space), if_pos rfl]
  split
  · rename_i same
    cases same
  · rename_i same
    exact absurd (List.cons.inj same).1 notEnd
  · rename_i same
    obtain ⟨rfl, rfl⟩ := List.cons.inj same
    rw [compiled]
    rfl

theorem compileLoop_class {ccl : Class} (valid : ccl.Valid) (space : j + 1 < MAX_REGEXP_OBJECTS)
    (room : idx + ccl.bytes.length < MAX_CHAR_CLASS_LEN)
    (compiled : compileLoop rounds (idx + ccl.bytes.length + 1) (j + 1) pattern = .ok objects) :
    compileLoop (rounds + 1) idx j ((Atom.ccl ccl).bytes ++ pattern) =
      .ok ((Atom.ccl ccl).object :: objects) := by
  have copied := copyClass_bytes valid room pattern
  rw [Atom.bytes, Atom.object]
  cases inverted : ccl.inverted with
  | true =>
    have place : 91 :: (if true = true then [94] else []) ++ ccl.bytes ++ [93] ++ pattern =
        91 :: 94 :: (ccl.bytes ++ 93 :: pattern) := by simp
    rw [place, compileLoop.eq_def]
    dsimp only
    rw [if_neg fun both => both.elim (by decide) (Nat.not_le.mpr space), if_neg (by decide),
      if_pos rfl]
    split
    · rename_i same
      obtain ⟨-, rfl⟩ := List.cons.inj same
      rw [copied]
      simp only [Except.bind, bind, compiled]
      rfl
    · rename_i other
      exact absurd rfl (other _)
  | false =>
    have place : 91 :: (if false = true then [94] else []) ++ ccl.bytes ++ [93] ++ pattern =
        91 :: (ccl.bytes ++ 93 :: pattern) := by simp
    rw [place, compileLoop.eq_def]
    dsimp only
    rw [if_neg fun both => both.elim (by decide) (Nat.not_le.mpr space), if_neg (by decide),
      if_pos rfl]
    split
    · rename_i same
      refine absurd ?_ (valid.caret inverted)
      have head : (ccl.bytes ++ 93 :: pattern).head? = some 94 := by rw [same, List.head?_cons]
      cases bytes : ccl.bytes with
      | nil =>
        rw [bytes] at head
        exact absurd (Option.some.inj head) (by decide)
      | cons c l =>
        rw [bytes] at head
        exact head
    · rw [copied]
      simp only [Except.bind, bind, compiled]
      rfl

/-- A token becomes an object. -/
theorem compileLoop_token {token : Token} (valid : token.Valid) (space : j + 1 < MAX_REGEXP_OBJECTS)
    (room : idx + token.space ≤ MAX_CHAR_CLASS_LEN)
    (compiled : compileLoop rounds (idx + token.space) (j + 1) pattern = .ok objects) :
    compileLoop (rounds + 1) idx j (token.bytes ++ pattern) = .ok (token.object :: objects) := by
  have mark : ∀ {c : UInt8}, c ≠ 0 → c ≠ 92 → c ≠ 91 → idx + token.space = idx →
      compileLoop (rounds + 1) idx j ([c] ++ pattern) = .ok (plainObject c :: objects) := by
    intro c notEnd notEscape notClass none
    rw [none] at compiled
    exact compileLoop_plain space notEnd notEscape notClass compiled
  cases token with
  | beginning => exact mark (by decide) (by decide) (by decide) rfl
  | ending => exact mark (by decide) (by decide) (by decide) rfl
  | questionMark => exact mark (by decide) (by decide) (by decide) rfl
  | star => exact mark (by decide) (by decide) (by decide) rfl
  | plus => exact mark (by decide) (by decide) (by decide) rfl
  | atom inner =>
    cases inner with
    | dot => exact mark (by decide) (by decide) (by decide) rfl
    | plain c =>
      have object := mark valid.1 valid.2.2.1 valid.2.1 rfl
      rwa [valid.2.2.2] at object
    | escaped c =>
      have object := compileLoop_escape space valid.1 compiled
      rwa [escapedObject_escaped valid] at object
    | shorthand kind =>
      have notEnd : kind.letter ≠ 0 := by cases kind <;> decide
      have object := compileLoop_escape space notEnd compiled
      rwa [escapedObject_letter kind] at object
    | ccl inside => exact compileLoop_class valid space (Nat.lt_of_succ_le room) compiled

/-- There is a round for each token, and one for the end. -/
theorem compileLoop_tokens {tokens : List Token} (valid : ∀ token ∈ tokens, token.Valid)
    (behind : List UInt8) (all : rounds + j = MAX_REGEXP_OBJECTS) (space : tokens.length < rounds)
    (room : idx + (tokens.map Token.space).sum ≤ MAX_CHAR_CLASS_LEN) :
    compileLoop rounds idx j (tokens.flatMap Token.bytes ++ 0 :: behind) =
      .ok (tokens.map Token.object) := by
  obtain ⟨rounds, rfl⟩ := Nat.exists_eq_succ_of_ne_zero (Nat.ne_of_gt (Nat.zero_lt_of_lt space))
  induction tokens generalizing rounds idx j with
  | nil => exact (compileLoop.eq_def ..).trans (if_pos (.inl rfl))
  | cons token tokens inductionHypothesis =>
    obtain ⟨first, others⟩ := List.forall_mem_cons.mp valid
    rw [List.length_cons] at space
    rw [List.map_cons, List.sum_cons] at room
    have more : 0 < rounds := Nat.zero_lt_of_lt (Nat.lt_of_succ_lt_succ space)
    obtain ⟨rounds, rfl⟩ := Nat.exists_eq_succ_of_ne_zero (Nat.ne_of_gt more)
    rw [List.flatMap_cons, List.append_assoc, List.map_cons]
    refine compileLoop_token first (by omega) (by omega) ?_
    exact inductionHypothesis others (by omega) rounds (by omega) (by omega)

end

theorem valid_tokens {expression : Expression}
    (valid : ∀ piece ∈ expression.pieces, piece.atom.Valid) :
    ∀ token ∈ expression.tokens, token.Valid := by
  have inPiece : ∀ piece ∈ expression.pieces, ∀ token ∈ piece.tokens, token.Valid := by
    intro piece member
    refine List.forall_mem_cons.mpr ⟨valid piece member, ?_⟩
    cases piece.times <;> simp [Times.tokens, Token.Valid]
  rw [Expression.tokens, Expression.bodyTokens, List.forall_mem_append, List.forall_mem_append]
  refine ⟨?_, ?_, ?_⟩
  · cases expression.anchored <;> simp [Token.Valid]
  · intro token member
    obtain ⟨piece, inPieces, inTokens⟩ := List.mem_flatMap.mp member
    exact inPiece piece inPieces token inTokens
  · cases expression.toEnd <;> simp [Token.Valid]

theorem re_compile_bytes {expression : Expression} (fits : expression.Fits)
    (behind : List UInt8) :
    re_compile (expression.bytes ++ 0 :: behind) = .ok (expression.tokens.map Token.object) := by
  have room : 1 + (expression.tokens.map Token.space).sum ≤ MAX_CHAR_CLASS_LEN := by
    rw [Nat.add_comm]
    exact fits.classes
  exact compileLoop_tokens (valid_tokens fits.valid) behind rfl fits.objects room

/-! ### Patterns are matched -/

section

open Computability

variable {signed : Bool} {p : Regex} {f : List UInt8 → Option Bool} {K : List UInt8 → Prop}
  {q : UInt8 → Prop}

theorem decides_matchquestion (decides : Decides f K)
    (letter : DecidesLetter (matchone signed p) q) :
    Decides (matchquestion signed p f) (Follows (1 + letters q) K) := by
  refine (decides_or decides (decides_oneThen decides letter) fun text => ?_).congr fun text => ?_
  · cases text <;> rfl
  · rw [follows_add, follows_one]

theorem decides_matchstar (decides : Decides f K)
    (letter : DecidesLetter (matchone signed p) q) :
    Decides (matchstar signed p f) (Follows (letters q)∗ K) :=
  decides_kstar decides letter rfl fun _ _ => rfl

theorem matchstar_of_matchplus {text : List UInt8}
    (is : matchplus signed p f text = oneThen (matchone signed p) (matchstar signed p f) text) :
    matchstar signed p f text = (f text).bind fun answer =>
      if answer = true then some true else matchplus signed p f text := by
  cases text with
  | nil =>
    rw [matchstar, matchplus]
    cases f [] with
    | none => rfl
    | some answer => cases answer <;> rfl
  | cons c text =>
    rw [is]
    rfl

/-- The loop is a character, and then `matchstar`. -/
theorem matchplus_eq (text : List UInt8) :
    matchplus signed p f text = oneThen (matchone signed p) (matchstar signed p f) text := by
  induction text with
  | nil => rfl
  | cons c text inductionHypothesis =>
    rw [oneThen, matchstar_of_matchplus inductionHypothesis]
    rfl

theorem decides_matchplus (decides : Decides f K)
    (letter : DecidesLetter (matchone signed p) q) :
    Decides (matchplus signed p f) (Follows (letters q * (letters q)∗) K) := by
  have both := decides_oneThen (decides_matchstar decides letter) letter
  refine Decides.congr ?_ fun text => follows_mul.symm
  intro text
  rw [matchplus_eq]
  exact both text

/-- An object that does not tell how often another one is there, and is no anchor in front. -/
def Apart (p : Regex) : Prop :=
  p ≠ .unwritten ∧ p ≠ .questionMark ∧ p ≠ .star ∧ p ≠ .plus ∧ p ≠ .beginning

theorem matchpattern_questionMark {pattern : List Regex} (written : p ≠ .unwritten)
    (text : List UInt8) : matchpattern signed (p :: .questionMark :: pattern) text =
      matchquestion signed p (matchpattern signed pattern) text := by
  rw [matchpattern]
  exact written

theorem matchpattern_star {pattern : List Regex} (written : p ≠ .unwritten)
    (text : List UInt8) : matchpattern signed (p :: .star :: pattern) text =
      matchstar signed p (matchpattern signed pattern) text := by
  rw [matchpattern]
  exact written

theorem matchpattern_plus {pattern : List Regex} (written : p ≠ .unwritten)
    (text : List UInt8) : matchpattern signed (p :: .plus :: pattern) text =
      matchplus signed p (matchpattern signed pattern) text := by
  rw [matchpattern]
  exact written

theorem matchpattern_once {rest : List Regex} (written : p ≠ .unwritten) (notEnd : p ≠ .ending)
    (next : ∀ r more, rest = r :: more → Apart r) (text : List UInt8) :
    matchpattern signed (p :: rest) text =
      oneThen (matchone signed p) (matchpattern signed rest) text := by
  cases text with
  | nil =>
    rw [matchpattern]
    · rfl
    · exact written
    · exact fun more same => (next _ more same).1 rfl
    · exact fun more same => (next _ more same).2.1 rfl
    · exact fun more same => (next _ more same).2.2.1 rfl
    · exact fun more same => (next _ more same).2.2.2.1 rfl
    · exact fun same _ => notEnd same
  | cons c text =>
    rw [matchpattern]
    · rfl
    · exact written
    · exact fun more same => (next _ more same).1 rfl
    · exact fun more same => (next _ more same).2.1 rfl
    · exact fun more same => (next _ more same).2.2.1 rfl
    · exact fun more same => (next _ more same).2.2.2.1 rfl
    · exact fun same _ => notEnd same

end

theorem object_ordinary (atom : Atom) : atom.object ≠ .ending ∧ Apart atom.object := by
  have all : ∀ {p : Regex}, (∃ answer, matchone true p 0 = some answer) →
      p ≠ .ending ∧ Apart p := by
    rintro p ⟨answer, found⟩
    refine ⟨?_, ?_, ?_, ?_, ?_, ?_⟩
    all_goals
      rintro rfl
      cases found
  cases atom with
  | dot => exact all ⟨_, rfl⟩
  | plain c => exact all ⟨_, rfl⟩
  | escaped c => exact all ⟨_, rfl⟩
  | shorthand kind =>
    obtain ⟨answer, found, -⟩ := @matchone_shorthand true 0 kind
    exact all ⟨answer, found⟩
  | ccl inside =>
    rw [Atom.object]
    cases inside.inverted with
    | true => exact all ⟨_, rfl⟩
    | false => exact all ⟨_, rfl⟩

namespace Expression

theorem bodyTokens_cons (anchored toEnd : Bool) (piece : Piece) (pieces : List Piece) :
    bodyTokens ⟨anchored, piece :: pieces, toEnd⟩ =
      piece.tokens ++ bodyTokens ⟨anchored, pieces, toEnd⟩ := by
  rw [bodyTokens, bodyTokens, List.flatMap_cons, List.append_assoc]

/-- What comes behind an anchor or a piece is an atom, or the anchor behind. -/
theorem bodyTokens_apart (expression : Expression) (r : Regex) (more : List Regex)
    (is : expression.bodyTokens.map Token.object = r :: more) : Apart r := by
  obtain ⟨anchored, pieces, toEnd⟩ := expression
  cases pieces with
  | nil =>
    cases toEnd with
    | false => cases is
    | true =>
      obtain ⟨rfl, -⟩ := List.cons.inj is
      exact ⟨by decide, by decide, by decide, by decide, by decide⟩
  | cons piece pieces =>
    obtain ⟨rfl, -⟩ := List.cons.inj is
    exact (object_ordinary piece.atom).2

/-- The objects of a body are tested for its language, and then for the end of the text. -/
theorem decides_matchpattern (signed : Bool) {expression : Expression}
    (valid : ∀ piece ∈ expression.pieces, piece.atom.Valid) :
    Decides (matchpattern signed (expression.bodyTokens.map Token.object))
      (expression.Begins signed) := by
  obtain ⟨anchored, pieces, toEnd⟩ := expression
  induction pieces with
  | nil =>
    cases toEnd with
    | false =>
      refine fun text => ⟨true, ?_, iff_of_true rfl (follows_one.mpr fun none => ?_)⟩
      · cases text <;> rfl
      · cases none
    | true =>
      intro text
      refine ⟨text.isEmpty, ?_, ?_⟩
      · cases text <;> rfl
      · rw [Begins, language, List.map_nil, List.prod_nil, follows_one, List.isEmpty_iff]
        exact ⟨fun is _ => is, fun is => is rfl⟩
  | cons piece pieces inductionHypothesis =>
    obtain ⟨first, others⟩ := List.forall_mem_cons.mp valid
    obtain ⟨atom, times⟩ := piece
    have later := inductionHypothesis others
    have letter : DecidesLetter (matchone signed atom.object) (atom.Has signed · ) :=
      fun c => matchone_atom first
    obtain ⟨notEnd, written, -⟩ := object_ordinary atom
    have next := bodyTokens_apart ⟨anchored, pieces, toEnd⟩
    refine Decides.congr ?_ fun text => follows_mul.symm
    rw [bodyTokens_cons]
    cases times with
    | once =>
      have step : matchpattern signed (atom.object :: (bodyTokens ⟨anchored, pieces, toEnd⟩).map
          Token.object) = _ := funext (matchpattern_once written notEnd next)
      exact step ▸ decides_oneThen later letter
    | optional =>
      have step := @matchpattern_questionMark signed atom.object
        ((bodyTokens ⟨anchored, pieces, toEnd⟩).map Token.object) written
      exact funext step ▸ decides_matchquestion later letter
    | any =>
      have step := @matchpattern_star signed atom.object
        ((bodyTokens ⟨anchored, pieces, toEnd⟩).map Token.object) written
      exact funext step ▸ decides_matchstar later letter
    | some =>
      have step := @matchpattern_plus signed atom.object
        ((bodyTokens ⟨anchored, pieces, toEnd⟩).map Token.object) written
      exact funext step ▸ decides_matchplus later letter

/-! ### The first match is found -/

theorem search_firstAt {signed : Bool} {pattern : List Regex} {K : List UInt8 → Prop}
    (decides : Decides (matchpattern signed pattern) K) (idx : Nat) (text : List UInt8) :
    ∃ result, search signed pattern idx text = some result ∧
      ∀ place, result = some place ↔ ∃ skipped, place = idx + skipped ∧ FirstAt K text skipped := by
  induction text generalizing idx with
  | nil =>
    obtain ⟨answer, found, -⟩ := decides []
    refine ⟨none, ?_, fun place => iff_of_false (Option.some_ne_none place).symm ?_⟩
    · rw [search, found]
      rfl
    · rintro ⟨skipped, -, first⟩
      exact not_firstAt_nil first
  | cons c text inductionHypothesis =>
    obtain ⟨answer, found, right⟩ := decides (c :: text)
    have step : search signed pattern idx (c :: text) =
        if answer = true then some (some idx) else search signed pattern (idx + 1) text := by
      rw [search, found]
      rfl
    cases answer with
    | true =>
      refine ⟨some idx, step, fun place => ?_⟩
      simp only [firstAt_cons_of_match (right.mp rfl)]
      rw [exists_eq_right, Nat.add_zero, Option.some_inj]
      exact eq_comm
    | false =>
      obtain ⟨result, later, is⟩ := inductionHypothesis (idx + 1)
      refine ⟨result, step.trans later, fun place => (is place).trans ?_⟩
      simp only [firstAt_cons_of_not fun holds => Bool.false_ne_true (right.mpr holds)]
      constructor
      · rintro ⟨skipped, rfl, first⟩
        exact ⟨skipped + 1, by omega, skipped, rfl, first⟩
      · rintro ⟨_, rfl, skipped, rfl, first⟩
        exact ⟨skipped, by omega, first⟩

theorem re_matchp_body {signed : Bool} (expression : Expression) (text : List UInt8) :
    re_matchp signed (expression.bodyTokens.map Token.object) text =
      search signed (expression.bodyTokens.map Token.object) 0 text := by
  have apart := expression.bodyTokens_apart
  cases is : expression.bodyTokens.map Token.object with
  | nil => rfl
  | cons p pattern =>
    rw [re_matchp]
    exact fun more same => (apart p pattern is).2.2.2.2 (List.cons.inj same).1

/-- A pattern that fits is found where it matches first, and is found there only. -/
theorem re_match_iff (signed : Bool) {expression : Expression} (fits : expression.Fits)
    (behind text : List UInt8) :
    ∃ result, re_match signed (expression.bytes ++ 0 :: behind) text = some result ∧
      ∀ idx, result = some idx ↔ expression.FirstMatch signed text idx := by
  have decides := decides_matchpattern signed fits.valid
  have compiled : re_match signed (expression.bytes ++ 0 :: behind) text =
      re_matchp signed (expression.tokens.map Token.object) text := by
    rw [re_match, re_compile_bytes fits behind]
  rw [compiled, tokens]
  simp only [FirstMatch]
  cases expression.anchored with
  | true =>
    obtain ⟨answer, found, right⟩ := decides text
    have step : re_matchp signed (.beginning :: expression.bodyTokens.map Token.object) text =
        some (if answer = true then some 0 else none) := by
      rw [re_matchp, found]
      cases answer <;> rfl
    refine ⟨_, step, fun idx => ?_⟩
    rw [if_pos rfl, ← right]
    cases answer with
    | true => exact ⟨fun is => ⟨(Option.some.inj is).symm, rfl⟩, fun is => congrArg some is.1.symm⟩
    | false =>
      exact iff_of_false (Option.some_ne_none idx).symm fun both => Bool.false_ne_true both.2
  | false =>
    obtain ⟨result, found, is⟩ := search_firstAt decides 0 text
    refine ⟨result, (re_matchp_body expression text).trans found, fun idx => (is idx).trans ?_⟩
    simp

/-- The pattern `-?[a-f\d-]+\..*$`. -/
def sampleExpression : Expression :=
  ⟨false, [⟨.plain 45, .optional⟩,
    ⟨.ccl ⟨false, false, [.range 97 102, .shorthand .digit], true⟩, .some⟩, ⟨.escaped 46, .once⟩,
    ⟨.dot, .any⟩], true⟩

theorem sampleExpression_fits : sampleExpression.Fits where
  valid := by
    intro piece member
    simp only [sampleExpression, List.mem_cons, List.not_mem_nil, or_false] at member
    rcases member with rfl | rfl | rfl | rfl
    · exact ⟨by decide, by decide, by decide, rfl⟩
    · refine ⟨?_, fun _ => by decide⟩
      simp [Item.Valid, Item.Plain]
    · exact ⟨by decide, rfl⟩
    · trivial
  objects := by decide
  classes := by decide

theorem re_match_sampleExpression :
    sampleExpression.bytes =
      [45, 63, 91, 97, 45, 102, 92, 100, 45, 93, 43, 92, 46, 46, 42, 36] ∧
    ∃ result, re_match true (sampleExpression.bytes ++ 0 :: [255]) [120, 45, 49, 98, 46, 55] =
        some result ∧
      ∀ idx, result = some idx ↔ sampleExpression.FirstMatch true [120, 45, 49, 98, 46, 55] idx :=
  ⟨rfl, re_match_iff true sampleExpression_fits [255] _⟩

example : re_match true (sampleExpression.bytes ++ 0 :: [255]) [120, 45, 49, 98, 46, 55] =
    some (some 1) := by decide

end Expression

end Frobio.Ncl.Regexp
