/-
This file proves what the loops of `Set` and `RemoveElement` do to the links of a skip list.

The links at the levels of an element change one by one, and between two of them the element is seen
at some of its levels only. The links back that change are those of the next elements at rising
levels, and the loops find these by the levels of the elements they come upon.
-/

import Frobio.Lib.Tower
import Frobio.Skiplist.SkipList

namespace Frobio.Skiplist

open Tower

variable {Key Score Value : Type}

namespace SkipList

variable {list : SkipList Key Score Value} {front back : List Nat} {x i : Nat}

/-! ### Links -/

theorem setLevel_eq {header next : Option Nat} (inside : i < list.level header) :
    list.setLevel header i next = some { list with levels := relink list.levels header i next } :=
  if_pos inside

/-- A new element is linked at all of its levels. -/
theorem linkLoop_spec {prevElemHeaders : List (Option Nat)}
    (linked : Linked (partly list.level x 0 0) list.levels (front ++ x :: back))
    (nodup : (front ++ x :: back).Nodup) (header : list.level (some x) ≤ list.level none)
    (prevs : ∀ i, i < list.level (some x) →
      prevElemHeaders[i]? = some (lastAt (below list.level) i front)) :
    ∃ levels, Loop.forLoop (linkLevel prevElemHeaders x) 0 (list.level (some x)) list =
        some { list with levels } ∧
      (∀ g, (levels g).length = list.level g) ∧
      Linked (below list.level) levels (front ++ x :: back) := by
  obtain ⟨final, looped, levels, rfl, same, linked⟩ := Loop.forLoop_invariant
    (fun j (state : SkipList Key Score Value) => ∃ levels, state = { list with levels } ∧
      (∀ g, (levels g).length = list.level g) ∧
      Linked (partly list.level x 0 j) levels (front ++ x :: back))
    (Nat.zero_le (list.level (some x)))
    (fun j state _ within (kept : ∃ levels, state = { list with levels } ∧
        (∀ g, (levels g).length = list.level g) ∧
        Linked (partly list.level x 0 j) levels (front ++ x :: back)) =>
      show ∃ next, linkLevel prevElemHeaders x state j = some next ∧ _ by
        obtain ⟨levels, rfl, same, linked⟩ := kept
        have inside : j < list.level (lastAt (below list.level) j front) :=
          lt_height_lastAt (within.trans_le header)
        have own : j < (levels (some x)).length := by rw [same]; exact within
        have across := linked.across nodup (by rw [partly_self]; simp) inside
        refine ⟨_, ?_, _, rfl, fun g => ?_, linked.raise nodup own (by rw [same]; exact inside)⟩
        · rw [linkLevel]
          simp only [prevs j within, across, Option.bind_eq_bind, Option.bind_some]
          rw [setLevel_eq own, Option.bind_some]
          refine setLevel_eq ?_
          show j < (relink levels (some x) j _ _).length
          rw [length_relink, same]
          exact inside
        · rw [length_relink, length_relink, same])
    ⟨list.levels, rfl, fun _ => rfl, linked⟩
  rw [partly_height] at linked
  exact ⟨levels, looped, same, linked⟩

/-- An element that goes is no more linked with. -/
theorem unlinkLoop_spec {prevElems : List Nat}
    (linked : Linked (below list.level) list.levels (front ++ x :: back))
    (nodup : (front ++ x :: back).Nodup) (header : list.level (some x) ≤ list.level none)
    (prevs : ∀ i, i < list.level (some x) → prevElems[i]? = lastAt (below list.level) i front) :
    ∃ levels, Loop.forLoop (unlinkLevel prevElems x) 0 (list.level (some x)) list =
        some { list with levels } ∧
      (∀ g, (levels g).length = list.level g) ∧ levels (some x) = list.levels (some x) ∧
      ∀ seen, (∀ g, g ≠ some x → seen g = below list.level g) → (∀ i, seen (some x) i = false) →
        Linked seen levels (front ++ back) := by
  have x_front : x ∉ front := fun member =>
    (List.nodup_append.mp nodup).2.2 x member x List.mem_cons_self rfl
  obtain ⟨final, looped, levels, rfl, same, own, linked⟩ := Loop.forLoop_invariant
    (fun j (state : SkipList Key Score Value) => ∃ levels, state = { list with levels } ∧
      (∀ g, (levels g).length = list.level g) ∧ levels (some x) = list.levels (some x) ∧
      Linked (partly list.level x j (list.level (some x))) levels (front ++ x :: back))
    (Nat.zero_le (list.level (some x)))
    (fun j state _ within (kept : ∃ levels, state = { list with levels } ∧
        (∀ g, (levels g).length = list.level g) ∧ levels (some x) = list.levels (some x) ∧
        Linked (partly list.level x j (list.level (some x))) levels (front ++ x :: back)) =>
      show ∃ next, unlinkLevel prevElems x state j = some next ∧ _ by
        obtain ⟨levels, rfl, same, own, linked'⟩ := kept
        have inside : j < list.level (lastAt (below list.level) j front) :=
          lt_height_lastAt (within.trans_le header)
        have link := linked.elem (below_iff.mpr within)
        refine ⟨_, ?_, _, rfl, fun g => ?_, ?_, linked'.lower nodup (by rw [same]; exact inside)⟩
        · rw [unlinkLevel]
          simp only [prevs j within, own, link, Option.bind_eq_bind, Option.bind_some]
          refine setLevel_eq ?_
          show j < (levels _).length
          rw [same]
          exact inside
        · rw [length_relink, same]
        · rw [relink, Function.update_of_ne (lastAt_ne x_front).symm, own])
    ⟨list.levels, rfl, fun _ => rfl, rfl, by rw [partly_height]; exact linked⟩
  refine ⟨levels, looped, same, own, fun seen others unseen => ?_⟩
  refine (linked.congr fun g _ => ⟨?_, rfl⟩).forget unseen
  funext i
  by_cases itself : g = some x
  · subst itself
    rw [unseen, partly_self]
    simp
  · rw [others g itself, partly_of_ne itself]

/-! ### Links back -/

theorem largestLevel_spec (list : SkipList Key Score Value) (elem n : Nat) :
    list.largestLevel elem n ≤ n ∧
      (∀ i, list.largestLevel elem n ≤ i → i < n → (list.levels (some elem)).getD i none = none) ∧
      (0 < list.largestLevel elem n →
        (list.levels (some elem)).getD (list.largestLevel elem n - 1) none ≠ none) := by
  induction n with
  | zero =>
    exact ⟨le_rfl, fun i _ less => absurd less (Nat.not_lt_zero i),
      fun more => absurd more (Nat.lt_irrefl 0)⟩
  | succ n inductionHypothesis =>
    obtain ⟨within, none, last⟩ := inductionHypothesis
    rw [largestLevel]
    by_cases next : (list.levels (some elem)).getD n Option.none = Option.none
    · rw [if_neg (not_not.mpr next)]
      refine ⟨within.trans (Nat.le_succ n), fun i high low => ?_, last⟩
      rcases Nat.lt_succ_iff_lt_or_eq.mp low with less | rfl
      · exact none i high less
      · exact next
    · rw [if_pos next]
      exact ⟨le_rfl, fun i high low => absurd low (Nat.not_lt.mpr high), fun _ => next⟩

/-- The next elements of a new one that are not higher have it as the link back. -/
theorem adjustNext_spec {n : Nat}
    (links : ∀ i, i < n → (list.levels (some x))[i]? = some (nextAt (below list.level) i back))
    {rounds : Nat} (enough : n + 1 ≤ i + rounds) (positive : 0 < rounds) : ∃ prevTopLevel,
      adjustNext x n (list.largestLevel x n) rounds i list = some { list with prevTopLevel } ∧
        Adjusted list.level back i n (fun _ => some x) list.prevTopLevel prevTopLevel := by
  obtain ⟨within, none, last⟩ := largestLevel_spec list x n
  generalize list.largestLevel x n = largest at within none last
  have value : ∀ i, i < n → (list.levels (some x)).getD i Option.none =
      nextAt (below list.level) i back := by
    intro i less
    rw [List.getD_eq_getElem?_getD, links i less]
    rfl
  -- up to the largest level, there is a next element
  have found : ∀ i, i < largest → ∃ e, nextAt (below list.level) i back = some e := by
    intro i less
    have some' := last (Nat.zero_lt_of_lt less)
    rw [value _ (by omega)] at some'
    obtain ⟨e, high⟩ := Option.ne_none_iff_exists'.mp some'
    refine Option.ne_none_iff_exists'.mp fun none => ?_
    have lower := below_eq_false.mp (nextAt_eq_none.mp none e (mem_of_nextAt high))
    have higher := below_iff.mp (seen_of_nextAt high)
    omega
  induction rounds generalizing i list with
  | zero => exact absurd positive (Nat.lt_irrefl 0)
  | succ rounds inductionHypothesis =>
    rw [adjustNext]
    by_cases goes : i < largest
    · obtain ⟨next, place⟩ := found i goes
      have above := below_iff.mp (seen_of_nextAt place)
      rw [if_pos goes, links i (goes.trans_le within), place]
      simp only [Option.bind_eq_bind, Option.bind_some]
      by_cases low : list.level (some next) ≤ n
      · rw [if_pos low]
        obtain ⟨prevTopLevel, adjusts, adjusted⟩ := @inductionHypothesis
          { list with prevTopLevel := Function.update list.prevTopLevel next (some x) }
          (list.level (some next)) links (by omega) (by omega) none last value found
        refine ⟨prevTopLevel, adjusts, .next place ?_⟩
        rw [if_pos low]
        exact adjusted
      · rw [if_neg low]
        obtain ⟨prevTopLevel, adjusts, adjusted⟩ := @inductionHypothesis list
          (list.level (some next)) links (by omega) (by omega) none last value found
        refine ⟨prevTopLevel, adjusts, .next place ?_⟩
        rw [if_neg low]
        exact adjusted
    · rw [if_neg goes]
      refine ⟨list.prevTopLevel, rfl, .refl fun e record above => ?_⟩
      by_contra high
      have low := Nat.not_lt.mp high
      obtain ⟨front, rest, rfl, -⟩ := record
      have absent := none (list.level (some e) - 1) (by omega) (by omega)
      rw [value _ (by omega), nextAt_eq_none] at absent
      have := below_eq_false.mp (absent e (by simp))
      omega

/-- The links back from an element of this level lead, over those of the same level, to the last
one in front that is higher. -/
theorem skipSame_spec (backed : Backed list.level list.prev list.prevTopLevel (front ++ back))
    {n : Nat} (positive : 0 < n) {rounds : Nat} (enough : front.length < rounds) :
    list.skipSame n rounds (lastAt (below list.level) (n - 1) front) =
      some (lastAt (below list.level) n front) := by
  induction rounds generalizing front back with
  | zero => exact absurd enough (Nat.not_lt_zero _)
  | succ rounds inductionHypothesis =>
    obtain ⟨first, rest, rfl, last, unseen⟩ := exists_lastAt (below list.level) (n - 1) front
    have unseen' : ∀ e ∈ rest, below list.level (some e) n = false := by
      intro e member
      have := below_eq_false.mp (unseen e member)
      rw [below_eq_false]
      omega
    rw [lastAt_append_of_unseen unseen']
    cases here : lastAt (below list.level) (n - 1) (first ++ rest) with
    | none =>
      rw [here] at last
      obtain rfl := List.getLast?_eq_none_iff.mp last
      rfl
    | some e =>
      rw [here] at last
      obtain ⟨before, rfl⟩ := List.getLast?_eq_some_iff.mp last
      have high := below_iff.mp (seen_of_nextAt here)
      rw [lastAt_concat, skipSame]
      by_cases same : list.level (some e) = n
      · have backed' : Backed list.level list.prev list.prevTopLevel
            (before ++ e :: (rest ++ back)) := by simpa using backed
        rw [if_pos same, (backed' before e (rest ++ back) rfl).2, same]
        rw [inductionHypothesis backed' (by
          simp only [List.length_append, List.length_singleton] at enough
          omega)]
        rw [if_neg]
        rw [below_iff]
        omega
      · rw [if_neg same, if_pos]
        rw [below_iff]
        omega

/-- The previous elements, at each level, until there is none. -/
theorem findPrevs_spec (backed : Backed list.level list.prev list.prevTopLevel (front ++ back))
    (enough : front.length ≤ list.made) {n : Nat} {rounds : Nat} {prev : Option Nat}
    {prevElems : List Nat} (room : n < prevElems.length + rounds) (within : prevElems.length ≤ n)
    (above : prevElems.length < n → prev = lastAt (below list.level) prevElems.length front)
    (so_far : ∀ i, i < prevElems.length → prevElems[i]? = lastAt (below list.level) i front) :
    ∃ result, list.findPrevs n rounds prev prevElems = some result ∧
      ∀ i, i < n → result[i]? = lastAt (below list.level) i front := by
  induction rounds generalizing prev prevElems with
  | zero => omega
  | succ rounds inductionHypothesis =>
    by_cases more : prevElems.length < n
    swap
    · refine ⟨prevElems, ?_, fun i less => so_far i (by omega)⟩
      cases prev with
      | none => rfl
      | some p => rw [findPrevs, if_pos (by omega)]
    have place := above more
    cases prev with
    | none =>
      refine ⟨prevElems, rfl, fun i less => ?_⟩
      by_cases inside : i < prevElems.length
      · exact so_far i inside
      · rw [List.getElem?_eq_none (by omega), eq_comm, lastAt_eq_none]
        intro e member
        have := below_eq_false.mp (lastAt_eq_none.mp place.symm e member)
        rw [below_eq_false]
        omega
    | some p =>
      have high := below_iff.mp (seen_of_nextAt place.symm)
      obtain ⟨first, rest, rfl, last, unseen⟩ := exists_lastAt (below list.level) prevElems.length
        front
      rw [← place] at last
      obtain ⟨before, rfl⟩ := List.getLast?_eq_some_iff.mp last
      have backed' : Backed list.level list.prev list.prevTopLevel
          (before ++ p :: (rest ++ back)) := by simpa using backed
      have short : before.length < list.made + 1 := by
        simp only [List.length_append, List.length_singleton] at enough
        omega
      have passed := skipSame_spec backed' (Nat.zero_lt_of_lt high) short
      -- at the levels of the element, it is the last one; above them, it is not seen
      have here : ∀ i, prevElems.length ≤ i → lastAt (below list.level) i (before ++ [p] ++ rest) =
          if i < list.level (some p) then some p else lastAt (below list.level) i before := by
        intro i least
        rw [lastAt_append_of_unseen, lastAt_concat]
        · by_cases low : i < list.level (some p)
          · rw [if_pos (below_iff.mpr low), if_pos low]
          · rw [if_neg (by rw [below_iff]; exact low), if_neg low]
        · intro e member
          have := below_eq_false.mp (unseen e member)
          rw [below_eq_false]
          omega
      rw [findPrevs, if_neg (Nat.not_le.mpr more), (backed' before p _ rfl).2]
      dsimp only
      rw [passed]
      simp only [Option.bind_eq_bind, Option.bind_some]
      have length : (prevElems ++ List.replicate
          (min (list.level (some p)) n - prevElems.length) p).length =
            min (list.level (some p)) n := by
        rw [List.length_append, List.length_replicate]
        omega
      refine inductionHypothesis (by rw [length]; omega) (by rw [length]; omega) ?_ ?_
      · rw [length]
        intro lower
        rw [Nat.min_eq_left (by omega), here _ high.le, if_neg (Nat.lt_irrefl _)]
      · rw [length]
        intro i less
        by_cases inside : i < prevElems.length
        · rw [List.getElem?_append_left inside, so_far i inside]
        · rw [List.getElem?_append_right (by omega), List.getElem?_replicate, if_pos (by omega),
            here i (by omega), if_pos (by omega)]

/-- The next elements that had the link back to one that goes have it to one in front. -/
theorem releaseNext_spec {n : Nat} {prevElems : List Nat}
    (links : ∀ i, i < n → (list.levels (some x))[i]? = some (nextAt (below list.level) i back))
    (prevs : ∀ i, i < n → prevElems[i]? = lastAt (below list.level) i front)
    (theirs : ∀ e, Record list.level back e → i < list.level (some e) →
      (list.prevTopLevel e = some x ↔ list.level (some e) ≤ n))
    {rounds : Nat} (enough : n + 1 ≤ i + rounds) (positive : 0 < rounds) : ∃ prevTopLevel,
      releaseNext x n prevElems rounds i list = some { list with prevTopLevel } ∧
        Adjusted list.level back i n (fun h => lastAt (below list.level) (h - 1) front)
          list.prevTopLevel prevTopLevel := by
  induction rounds generalizing i list with
  | zero => exact absurd positive (Nat.lt_irrefl 0)
  | succ rounds inductionHypothesis =>
    rw [releaseNext]
    by_cases goes : i < n
    swap
    · rw [if_neg goes]
      exact ⟨list.prevTopLevel, rfl, .refl fun e _ above => by omega⟩
    rw [if_pos goes, links i goes]
    simp only [Option.bind_eq_bind, Option.bind_some]
    cases place : nextAt (below list.level) i back with
    | none =>
      refine ⟨list.prevTopLevel, rfl, .refl fun e record above => ?_⟩
      obtain ⟨before, rest, rfl, -⟩ := record
      have := below_eq_false.mp (nextAt_eq_none.mp place e (by simp))
      omega
    | some next =>
      obtain ⟨record, above⟩ := record_of_nextAt place
      dsimp only
      by_cases its : list.prevTopLevel next = some x
      · have low := (theirs next record above).mp its
        rw [if_neg (not_not.mpr its), if_neg (by omega), prevs _ (by omega)]
        let freed : Nat → Option Nat := Function.update list.prevTopLevel next
          (lastAt (below list.level) (list.level (some next) - 1) front)
        have theirs' : ∀ e, Record list.level back e → list.level (some next) < list.level (some e) →
            (freed e = some x ↔ list.level (some e) ≤ n) := by
          intro e other higher
          have apart : e ≠ next := by
            rintro rfl
            exact Nat.lt_irrefl _ higher
          have kept : freed e = list.prevTopLevel e := Function.update_of_ne apart _ _
          rw [kept]
          exact theirs e other (above.trans higher)
        obtain ⟨prevTopLevel, releases, adjusted⟩ := @inductionHypothesis
          { list with prevTopLevel := freed } (list.level (some next)) links prevs theirs' (by omega)
          (by omega)
        refine ⟨prevTopLevel, releases, .next place ?_⟩
        rw [if_pos low]
        exact adjusted
      · rw [if_pos its]
        refine ⟨list.prevTopLevel, rfl, .refl fun e other high => ?_⟩
        have higher : n < list.level (some next) := by
          by_contra low
          exact its ((theirs next record above).mpr (Nat.not_lt.mp low))
        by_cases same : e = next
        · exact same ▸ higher
        · exact higher.trans (lt_of_record place other high same)

end SkipList

end Frobio.Skiplist
