/-
This file is about laws of the lists of `ncl/ncl.c`: white space that is added to a list,
`lindex` and `lrange` on it, and `split` undone by `join`.

What a command gives is the interpreter's result after it. A list that a command makes is
split into the strings it was made of, so that the laws are about those strings.
-/

import Frobio.Ncl.Frames

namespace Frobio.Ncl

open Coms Froblib Program

/-! ### White space -/

/-- A byte that `SplitList` skips. -/
def White (signed : Bool) (c : UInt8) : Prop := c ≠ 0 ∧ char signed c ≤ 32

instance (signed : Bool) (c : UInt8) : Decidable (White signed c) :=
  inferInstanceAs (Decidable (_ ∧ _))

/-- A list that is written with this white space before each element, and after the last one. -/
def padded (signed : Bool) (items : List (List UInt8 × CString)) (trail : List UInt8) :
    List UInt8 :=
  (items.flatMap fun item => item.1 ++ element signed item.2) ++ trail

/-- The gaps are white space, and there is some between any two elements. -/
structure Gaps (signed : Bool) (items : List (List UInt8 × CString)) : Prop where
  white : ∀ item ∈ items, ∀ c ∈ item.1, White signed c
  between : ∀ item ∈ items.tail, item.1 ≠ []

section

variable {signed : Bool}

theorem skipWhite_append {gap : List UInt8} (white : ∀ c ∈ gap, White signed c) (s : List UInt8) :
    skipWhite signed (gap ++ s) = skipWhite signed s := by
  induction gap with
  | nil => rfl
  | cons c gap inductionHypothesis =>
    rw [List.forall_mem_cons] at white
    rw [List.cons_append, skipWhite, ← inductionHypothesis white.2]
    exact if_pos white.1

theorem Gaps.tail {item : List UInt8 × CString} {items : List (List UInt8 × CString)}
    (gaps : Gaps signed (item :: items)) : Gaps signed items where
  white other member := gaps.white other (List.mem_cons_of_mem _ member)
  between other member := gaps.between other (List.mem_of_mem_tail member)

theorem not_above_of_white {c : UInt8} (white : White signed c) : ¬char signed c > 32 :=
  not_lt.mpr white.2

theorem not_above_zero : ¬char signed 0 > 32 := by
  cases signed <;> decide

/-- After an element comes white space, or the end. -/
theorem padded_stops {item : List UInt8 × CString} {items : List (List UInt8 × CString)}
    (gaps : Gaps signed (item :: items)) {trail : List UInt8}
    (white : ∀ c ∈ trail, White signed c) (rest : List UInt8) :
    ∃ c later, padded signed items trail ++ 0 :: rest = c :: later ∧ ¬char signed c > 32 := by
  cases items with
  | nil =>
    cases trail with
    | nil => exact ⟨0, rest, rfl, not_above_zero⟩
    | cons c trail => exact ⟨c, _, rfl, not_above_of_white (white c List.mem_cons_self)⟩
  | cons next items =>
    obtain ⟨c, gap, cons⟩ :=
      List.exists_cons_of_ne_nil (gaps.between next List.mem_cons_self)
    have first : White signed c :=
      gaps.white next (List.mem_cons_of_mem _ List.mem_cons_self) c (cons ▸ List.mem_cons_self)
    refine ⟨c, gap ++ (element signed next.2 ++ (padded signed items trail ++ 0 :: rest)), ?_,
      not_above_of_white first⟩
    simp only [padded, List.flatMap_cons, cons, List.append_assoc, List.cons_append]

/-- White space after the last element is read as one more element, which is empty. -/
theorem splitLoop_trail {trail : List UInt8} (white : ∀ c ∈ trail, White signed c)
    (rest : List UInt8) (rounds : Nat) :
    splitLoop signed (rounds + 2) (trail ++ 0 :: rest) =
      some (if trail = [] then [] else [cut []]) := by
  cases trail with
  | nil => rfl
  | cons c trail =>
    have nonzero : c ≠ 0 := (white c List.mem_cons_self).1
    have skips : skipWhite signed (c :: trail ++ 0 :: rest) = some (0 :: rest) := by
      rw [skipWhite_append white, skipWhite]
      exact if_neg fun wrong => wrong.1 rfl
    have noBrace : (0 :: rest).head? ≠ some 123 := fun same => by cases same
    have length : elemLen signed (0 :: rest) = some (0, 0 :: rest) := by
      rw [elemLen, if_neg noBrace, bare, if_neg not_above_zero]
      rfl
    have decoded : elemDecode signed (0 :: rest) = some (cut []) := by
      rw [elemDecode, if_neg noBrace, bare, if_neg not_above_zero]
      rfl
    rw [List.cons_append] at skips ⊢
    rw [splitLoop]
    dsimp only
    rw [if_neg nonzero, skips, Option.bind_some, length, Option.bind_some, decoded,
      Option.bind_some]
    rfl

theorem splitLoop_padded {items : List (List UInt8 × CString)} (gaps : Gaps signed items)
    {trail : List UInt8} (white : ∀ c ∈ trail, White signed c) (rest : List UInt8) {rounds : Nat}
    (enough : items.length + 2 ≤ rounds) :
    splitLoop signed rounds (padded signed items trail ++ 0 :: rest) =
      some (items.map Prod.snd ++ if trail = [] then [] else [cut []]) := by
  induction items generalizing rounds with
  | nil =>
    obtain ⟨rounds, rfl⟩ : ∃ more, rounds = more + 2 := ⟨rounds - 2, by omega⟩
    exact splitLoop_trail white rest rounds
  | cons item items inductionHypothesis =>
    rw [List.length_cons] at enough
    obtain ⟨rounds, rfl⟩ : ∃ more, rounds = more + 1 := ⟨rounds - 1, by omega⟩
    obtain ⟨c, later, after, stops⟩ := padded_stops gaps white rest
    have split : padded signed (item :: items) trail ++ 0 :: rest =
        item.1 ++ (element signed item.2 ++ c :: later) := by
      rw [← after]
      simp only [padded, List.flatMap_cons, List.append_assoc]
    have skips : skipWhite signed (item.1 ++ (element signed item.2 ++ c :: later)) =
        some (element signed item.2 ++ c :: later) := by
      rw [skipWhite_append (gaps.white item List.mem_cons_self), skipWhite_element]
    have nonempty : (item.1 ++ (element signed item.2 ++ c :: later)).head? ≠ some 0 ∧
        item.1 ++ (element signed item.2 ++ c :: later) ≠ [] := by
      obtain ⟨first, more, cons, -, nonzero⟩ := @element_first signed item.2
      cases gap : item.1 with
      | nil =>
        rw [cons]
        exact ⟨fun wrong => nonzero (Option.some_inj.mp wrong), List.cons_ne_nil _ _⟩
      | cons first gap' =>
        have white := gaps.white item List.mem_cons_self first (gap ▸ List.mem_cons_self)
        exact ⟨fun wrong => white.1 (Option.some_inj.mp wrong), List.cons_ne_nil _ _⟩
    rw [split, splitLoop_element item.2 stops nonempty skips, ← after,
      inductionHypothesis gaps.tail (by omega)]
    rfl

theorem length_le_padded (items : List (List UInt8 × CString)) (trail : List UInt8) :
    items.length + trail.length ≤ (padded signed items trail).length := by
  induction items with
  | nil => exact (Nat.zero_add _).le
  | cons item items inductionHypothesis =>
    have some := List.length_pos_iff.mpr (@element_ne_nil signed item.2)
    simp only [padded, List.flatMap_cons, List.length_append, List.length_cons] at *
    omega

/-- Additional white space before and between the elements makes no difference, and after the last
one it does. -/
theorem splitList_padded_iff (signed : Bool) (items : List (List UInt8 × CString))
    (gaps : Gaps signed items) (trail : List UInt8) (white : ∀ c ∈ trail, White signed c)
    (rest : List UInt8) :
    splitList signed (padded signed items trail ++ 0 :: rest) =
        splitList signed ((formList signed (items.map Prod.snd)).memory rest) ↔
      trail = [] := by
  have least := @length_le_padded signed items trail
  have splits : splitList signed (padded signed items trail ++ 0 :: rest) =
      some (items.map Prod.snd ++ if trail = [] then [] else [cut []]) := by
    refine splitLoop_padded gaps white rest ?_
    rw [List.length_append, List.length_cons]
    omega
  rw [splits, splitList_memory_formList, Option.some_inj]
  by_cases none : trail = []
  · rw [if_pos none, List.append_nil]
    exact iff_of_true rfl none
  · rw [if_neg none]
    refine iff_of_false (fun same => ?_) none
    have lengths := congrArg List.length same
    rw [List.length_append, List.length_singleton] at lengths
    omega

/-- Two elements with a newline before the first and a tab between. -/
theorem splitList_padded_two :
    splitList false (padded false [([10], ⟨[97], by decide⟩), ([32, 9], ⟨[98, 32], by decide⟩)] [] ++
        [0]) =
      splitList false ((formList false [⟨[97], by decide⟩, ⟨[98, 32], by decide⟩]).memory []) :=
  (splitList_padded_iff false _ ⟨by decide +kernel, by decide +kernel⟩ [] (by decide +kernel) []).mpr rfl

/-- A space after the only element. -/
theorem not_splitList_padded_trail :
    splitList false (padded false [([], ⟨[97], by decide⟩)] [32] ++ [0]) ≠
      splitList false ((formList false [⟨[97], by decide⟩]).memory []) := by
  decide +kernel

end

/-! ### Ranges -/

/-- The items between two indices are a piece of the list. -/
theorem filter_zipIdx (v : List CString) (a b : Int) (n : Nat) :
    ((v.zipIdx n).filter fun item => a ≤ item.2 ∧ (item.2 : Int) ≤ b).map Prod.fst =
      (v.drop (a - n).toNat).take (b + 1 - max a n).toNat := by
  induction v generalizing n with
  | nil => simp
  | cons x v inductionHypothesis =>
    rw [List.zipIdx_cons, List.filter_cons]
    by_cases after : a ≤ n
    · have start : (a - n).toNat = 0 := by omega
      have start' : (a - (n + 1 : Nat)).toNat = 0 := by omega
      rw [start, List.drop_zero]
      by_cases before : (n : Int) ≤ b
      · have one : (b + 1 - max a n).toNat = (b + 1 - max a (n + 1 : Nat)).toNat + 1 := by omega
        rw [if_pos (by simpa using ⟨after, before⟩), List.map_cons, inductionHypothesis, start',
          List.drop_zero, one, List.take_succ_cons]
      · have none : (b + 1 - max a n).toNat = 0 := by omega
        have none' : (b + 1 - max a (n + 1 : Nat)).toNat = 0 := by omega
        rw [if_neg (by simpa using fun _ => not_le.mp before), inductionHypothesis, none, none',
          List.take_zero, List.take_zero]
    · have one : (a - n).toNat = (a - (n + 1 : Nat)).toNat + 1 := by omega
      have same : max a (n + 1 : Nat) = max a n := by omega
      rw [if_neg (by simpa using fun wrong => absurd wrong after), inductionHypothesis, one, same,
        List.drop_succ_cons]

theorem listRange_eq (a b : Int) (v : List CString) :
    listRange a b v = (v.drop a.toNat).take (b + 1 - max a 0).toNat := by
  rw [listRange, filter_zipIdx v a b 0]
  simp

/-- The part of a list from one index to another, as far as there are items. -/
def sublist (first last : Int) (xs : List CString) : List CString :=
  (xs.drop (max first 0).toNat).take (min last (xs.length - 1) + 1 - max first 0).toNat

theorem listRange_eq_sublist (first last : Int) (xs : List CString) :
    listRange first last xs = sublist first last xs := by
  have start : (max first 0).toNat = first.toNat := by omega
  rw [listRange_eq, sublist, start]
  by_cases inside : last ≤ xs.length - 1
  · rw [min_eq_left inside]
  · rw [List.take_of_length_le, List.take_of_length_le]
    · rw [List.length_drop]
      omega
    · rw [List.length_drop]
      omega

/-- One item is as it is in the list just when nothing is quoted. -/
theorem formList_singleton_iff (x : CString) :
    formList signed [x] = x ↔ (∀ c ∈ x.bytes, special signed c = false) ∧ x.bytes ≠ [] := by
  have bytes : (formList signed [x]).bytes = element signed x := by
    rw [bytes_formList, foldl_bufAppElemS_cons]
    exact List.append_nil _
  have clean : x.bytes.all (fun c => !special signed c) = true ↔
      ∀ c ∈ x.bytes, special signed c = false := by simp
  constructor
  · intro same
    rw [same, element] at bytes
    split at bytes
    · rename_i plain
      exact ⟨clean.mp plain.1, plain.2⟩
    · have more : x.bytes.length ≤ (escaped signed x.bytes).length := by
        generalize x.bytes = s
        induction s with
        | nil => exact Nat.le_refl 0
        | cons c s inductionHypothesis =>
          rw [escaped_cons, List.length_append, List.length_cons]
          split
          · exact (Nat.succ_le_succ inductionHypothesis).trans (by simp)
          · exact (Nat.succ_le_succ inductionHypothesis).trans (by simp [Nat.add_comm])
      have lengths := congrArg List.length bytes
      rw [List.length_cons, List.length_append, List.length_singleton] at lengths
      omega
  · rintro ⟨plain, some⟩
    refine CString.ext (bytes.trans ?_)
    rw [element, if_pos ⟨clean.mpr plain, some⟩]

section

variable {World : Type} (o : Outside World) (x : Interp World)

/-- What a command that splits a list goes on with. -/
theorem split_formList (xs : List CString) : ∃ world,
    split o (formList o.signed xs) x = (some xs, { x with world := world }) := by
  refine ⟨(o.behind x.world (formList o.signed xs)).2, ?_⟩
  show after (behind o (formList o.signed xs) x) (fun rest =>
    ofOption (splitList o.signed ((formList o.signed xs).memory rest))) = _
  rw [behind, after, splitList_memory_formList]
  rfl

/-- `lindex` and `lrange` on the list of some strings. -/
theorem listRangeOrIndex_formList (argv xs : List CString)
    (list : arg argv 1 = formList o.signed xs) :
    ∃ x', picolCommandListRangeOrIndex o argv x = (some .ok, x') ∧
      x'.result = formList o.signed (listRange (atoi (arg argv 2))
        (if argv.length = 3 then atoi (arg argv 2) else atoi (arg argv 3)) xs) := by
  obtain ⟨world, splits⟩ := split_formList o x xs
  refine ⟨{ x with
    world
    result := formList o.signed (listRange (atoi (arg argv 2))
      (if argv.length = 3 then atoi (arg argv 2) else atoi (arg argv 3)) xs) }, ?_, rfl⟩
  show after (split o (arg argv 1) x) _ = _
  rw [list, splits]
  rfl

/-- `lindex` gives an item as it is just when the item has nothing to quote, and what `lrange`
gives splits into the items of the range. -/
theorem listIndex_iff (xs : List CString) :
    (∀ (name index : CString) (i : Nat) (inside : i < xs.length), atoi index = i →
      ∃ x', picolCommandListRangeOrIndex o [name, formList o.signed xs, index] x = (some .ok, x') ∧
        (x'.result = xs[i] ↔
          (∀ c ∈ xs[i].bytes, special o.signed c = false) ∧ xs[i].bytes ≠ [])) ∧
    ∀ name first last : CString,
      ∃ x', picolCommandListRangeOrIndex o [name, formList o.signed xs, first, last] x =
          (some .ok, x') ∧
        ∀ rest, splitList o.signed (x'.result.memory rest) =
          some (sublist (atoi first) (atoi last) xs) := by
  constructor
  · intro name index i inside value
    obtain ⟨x', runs, result⟩ :=
      listRangeOrIndex_formList o x [name, formList o.signed xs, index] xs rfl
    refine ⟨x', runs, ?_⟩
    have one : listRange i i xs = [xs[i]] := by
      have size : ((i : Int) + 1 - max (i : Int) 0).toNat = 1 := by omega
      rw [listRange_eq, size, Int.toNat_natCast, List.drop_eq_getElem_cons inside]
      rfl
    rw [result]
    show formList o.signed (listRange (atoi index) (atoi index) xs) = _ ↔ _
    rw [value, one, formList_singleton_iff]
  · intro name first last
    obtain ⟨x', runs, result⟩ :=
      listRangeOrIndex_formList o x [name, formList o.signed xs, first, last] xs rfl
    refine ⟨x', runs, fun rest => ?_⟩
    rw [result]
    show splitList o.signed ((formList o.signed (listRange (atoi first) (atoi last) xs)).memory
      rest) = _
    rw [splitList_memory_formList, listRange_eq_sublist]

end

/-- `lindex {a {b\ c}} 0`. -/
theorem listIndex_plain :
    ∃ x', picolCommandListRangeOrIndex bareMachine
        [text "lindex", formList true [text "a", text "b c"], text "0"] (start ()) =
          (some .ok, x') ∧ x'.result = text "a" := by
  obtain ⟨x', runs, exact_item⟩ := (listIndex_iff bareMachine (start ())
    [text "a", text "b c"]).1 (text "lindex") (text "0") 0 (by decide +kernel) (by decide +kernel)
  exact ⟨x', runs, exact_item.mpr ⟨by decide +kernel, by decide +kernel⟩⟩

/-- `lindex {a {b\ c}} 1` is the item as it stands in the list. -/
theorem not_listIndex_quoted :
    (picolCommandListRangeOrIndex bareMachine
      [text "lindex", formList true [text "a", text "b c"], text "1"] (start ())).2.result ≠
        text "b c" := by
  decide +kernel

/-! ### Split and join -/

section

variable {signed : Bool} {delim : UInt8}

theorem splitPart_at (nonzero : delim ≠ 0) {part : List UInt8} (apart : delim ∉ part)
    (rest : List UInt8) (final : Bool) :
    splitPart signed delim (part ++ delim :: rest) final = (part, delim :: rest, true) := by
  induction part generalizing final with
  | nil =>
    rw [List.nil_append, splitPart, if_pos ⟨nonzero, rfl⟩]
  | cons c part inductionHypothesis =>
    rw [List.mem_cons, not_or] at apart
    rw [List.cons_append, splitPart, if_neg fun same => apart.1 same.2.symm,
      if_neg fun white => nonzero white.1, inductionHypothesis apart.2]

theorem splitPart_whole (nonzero : delim ≠ 0) {part : List UInt8} (apart : delim ∉ part) :
    splitPart signed delim part false = (part, [], false) := by
  induction part with
  | nil => rfl
  | cons c part inductionHypothesis =>
    rw [List.mem_cons, not_or] at apart
    rw [splitPart, if_neg fun same => apart.1 same.2.symm, if_neg fun white => nonzero white.1,
      inductionHypothesis apart.2]

/-- The parts of a string, where a delimiter may have come before it. -/
def partsFrom (delim : UInt8) (s : List UInt8) (final : Bool) : List CString :=
  if s = [] then if final then [cut []] else [] else (s.splitOn delim).map cut

theorem splitOn_eq_partsFrom (delim : UInt8) (s : List UInt8) :
    (s.splitOn delim).map cut = partsFrom delim s true := by
  rw [partsFrom]
  split
  · rename_i empty
    rw [empty]
    rfl
  · rfl

/-- The parts are the pieces between the delimiters. -/
theorem splitRounds_eq (nonzero : delim ≠ 0) {rounds : Nat} {s : List UInt8}
    (enough : s.length < rounds) (final : Bool) (list : Buf) :
    splitRounds signed delim rounds s final list =
      (partsFrom delim s final).foldl (bufAppElemS signed) list := by
  induction rounds generalizing s final list with
  | zero => exact absurd enough (Nat.not_lt_zero _)
  | succ rounds inductionHypothesis =>
    cases s with
    | nil =>
      cases final <;> rfl
    | cons c s =>
      rw [splitRounds, if_pos (Or.inl nonzero)]
      by_cases inside : delim ∈ c :: s
      · obtain ⟨part, rest, cons, apart⟩ := List.eq_append_cons_of_mem inside
        have shorter : rest.length < rounds := by
          have lengths := congrArg List.length cons
          rw [List.length_append, List.length_cons, List.length_cons] at lengths
          rw [List.length_cons] at enough
          omega
        have pieces : partsFrom delim (c :: s) final = cut part :: partsFrom delim rest true := by
          rw [partsFrom, if_neg (List.cons_ne_nil c s), cons,
            List.splitOn_append_cons_self_of_not_mem apart, List.map_cons, splitOn_eq_partsFrom]
        rw [pieces, cons, splitPart_at nonzero apart]
        exact inductionHypothesis shorter true _
      · have whole : splitPart signed delim (c :: s) final = (c :: s, [], false) := by
          rw [List.mem_cons, not_or] at inside
          rw [splitPart, if_neg fun same => inside.1 same.2.symm,
            if_neg fun white => nonzero white.1, splitPart_whole nonzero inside.2]
        have pieces : partsFrom delim (c :: s) final = [cut (c :: s)] := by
          rw [partsFrom, if_neg (List.cons_ne_nil c s), List.splitOn_eq_singleton inside]
          rfl
        rw [whole, pieces]
        exact inductionHypothesis (Nat.lt_of_lt_of_le (Nat.succ_pos _) (Nat.le_of_lt_succ enough)) false _

theorem joined_eq (nonzero : delim ≠ 0) (v : List CString) :
    joined delim v = [delim].intercalate (v.map CString.bytes) := by
  induction v with
  | nil => rfl
  | cons x v inductionHypothesis =>
    cases v with
    | nil => simp [joined]
    | cons y v =>
      have separated : joined delim (x :: y :: v) = x.bytes ++ [delim] ++ joined delim (y :: v) := by
        rw [joined, if_pos nonzero]
        exact List.cons_ne_nil y v
      rw [separated, inductionHypothesis, List.map_cons, List.map_cons, List.map_cons,
        List.intercalate_cons_cons]

theorem mem_intercalate (separator : List UInt8) {pieces : List (List UInt8)} {piece : List UInt8}
    (member : piece ∈ pieces) {c : UInt8} (inside : c ∈ piece) :
    c ∈ separator.intercalate pieces := by
  induction pieces with
  | nil => cases member
  | cons first pieces inductionHypothesis =>
    cases pieces with
    | nil =>
      rw [List.mem_singleton] at member
      rwa [List.intercalate_singleton, ← member]
    | cons second pieces =>
      rw [List.intercalate_cons_cons, List.mem_append, List.mem_append]
      rcases List.mem_cons.mp member with rfl | later
      · exact .inl (.inl inside)
      · exact .inr (inductionHypothesis later)

/-- The pieces of a string, put together again, are the string. -/
theorem joined_partsFrom (nonzero : delim ≠ 0) (s : CString) :
    bufFinish (joined delim (partsFrom delim s.bytes false)) = s := by
  rw [joined_eq nonzero, partsFrom]
  split
  · rename_i empty
    refine CString.ext ?_
    rw [empty]
    rfl
  · have whole : ((s.bytes.splitOn delim).map cut).map CString.bytes = s.bytes.splitOn delim := by
      rw [List.map_map]
      refine (List.map_congr_left fun piece member => ?_).trans (List.map_id _)
      refine bytes_cut fun zero => s.noNul ?_
      have inside := mem_intercalate [delim] member zero
      rwa [List.intercalate_splitOn] at inside
    rw [whole, List.intercalate_splitOn]
    exact CString.ext (bytes_cut s.noNul)

end

/-- `join` undoes `split`, with the same delimiter. -/
theorem join_split {World : Type} (o : Outside World) (x y : Interp World)
    (name name' s d : CString) (nonempty : d.bytes ≠ []) :
    ∃ x' y', picolCommandSplit o [name, s, d] x = (some .ok, x') ∧
      picolCommandJoin o [name', x'.result, d] y = (some .ok, y') ∧ y'.result = s := by
  have nonzero : charAt d 0 ≠ 0 := by
    obtain ⟨c, rest, cons⟩ := List.exists_cons_of_ne_nil nonempty
    rintro zero
    rw [charAt, cons] at zero
    exact d.noNul (cons ▸ zero ▸ List.mem_cons_self)
  have parts : bufFinish (splitRounds o.signed (charAt d 0) (s.bytes.length + 1) s.bytes false []) =
      formList o.signed (partsFrom (charAt d 0) s.bytes false) := by
    rw [splitRounds_eq nonzero (Nat.lt_succ_self _)]
    rfl
  obtain ⟨world, splits⟩ := split_formList o y (partsFrom (charAt d 0) s.bytes false)
  refine ⟨{ x with result := formList o.signed (partsFrom (charAt d 0) s.bytes false) },
    { y with
      world
      result := bufFinish (joined (charAt d 0) (partsFrom (charAt d 0) s.bytes false)) }, ?_, ?_,
    joined_partsFrom nonzero s⟩
  · rw [← parts]
    rfl
  · show after (split o (formList o.signed (partsFrom (charAt d 0) s.bytes false)) y) _ = _
    rw [splits]
    rfl

/-- The empty pieces at both ends and in the middle, and a piece that is quoted in the list. -/
theorem join_split_commas :
    ∃ x' y', picolCommandSplit bareMachine [text "split", text ",a b,,", text ",;"] (start ()) =
        (some .ok, x') ∧
      picolCommandJoin bareMachine [text "join", x'.result, text ",;"] (start ()) = (some .ok, y') ∧
      y'.result = text ",a b,," :=
  join_split bareMachine (start ()) (start ()) (text "split") (text "join") (text ",a b,,")
    (text ",;") (by decide)

end Frobio.Ncl
