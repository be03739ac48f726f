/-
This file proves what the loops of `Set` and `findNext` do over the levels of a skip list.

A walk at a level goes on to the last element there whose key is less, and a level is skipped if it
points to the same element as the one before it. `Descent` is what holds between two levels: all
elements between the header and the place are lower than the levels to come.
-/

import Frobio.Lib.Tower
import Frobio.Skiplist.SkipList

namespace Frobio.Skiplist

open Tower

variable {Key Score Value : Type} [LinearOrder Score]

namespace SkipList

variable {list : SkipList Key Score Value} {score : Score} {key : Key} {i : Nat}
  {row front back mid : List Nat}

/-- A walk at a level goes to the last element there whose key is less. -/
theorem walk_spec (linked : Linked (below list.level) list.levels (front ++ (mid ++ back)))
    (sees : below list.level front.getLast? i = true)
    (less : ∀ e ∈ mid, list.compare score key e = some .gt)
    (notLess : ∀ e ∈ back, ∃ o, list.compare score key e = some o ∧ o ≠ .gt)
    {rounds : Nat} (enough : mid.length < rounds) :
    ∃ first rest, front ++ mid = first ++ rest ∧ below list.level first.getLast? i = true ∧
      (∀ e ∈ rest, below list.level (some e) i = false) ∧
      list.walk score key i rounds front.getLast? =
        match nextAt (below list.level) i back with
        | none => some (.stopped first.getLast? none)
        | some e =>
          if list.compare score key e = some .eq then some (.found e)
          else some (.stopped first.getLast? (some e)) := by
  induction rounds generalizing front mid with
  | zero => exact absurd enough (Nat.not_lt_zero _)
  | succ rounds inductionHypothesis =>
    have link := linked front (mid ++ back) rfl i sees
    rw [walk, link, nextAt_append]
    cases found : nextAt (below list.level) i mid with
    | none =>
      refine ⟨front, mid, rfl, sees, nextAt_eq_none.mp found, ?_⟩
      rw [Option.none_or]
      cases place : nextAt (below list.level) i back with
      | none => rfl
      | some e =>
        obtain ⟨o, compared, apart⟩ := notLess e (mem_of_nextAt place)
        simp only [Option.bind_eq_bind, Option.bind_some, compared]
        cases o with
        | lt => rfl
        | eq => rfl
        | gt => exact absurd rfl apart
    | some e =>
      obtain ⟨seesElem, before, after, rfl, -⟩ := nextAt_eq_some.mp found
      have last : (front ++ before ++ [e]).getLast? = some e := List.getLast?_concat
      obtain ⟨first, rest, parts, seesFirst, unseen, walked⟩ := @inductionHypothesis
        (front ++ before ++ [e]) after (by simpa using linked)
        (by rw [last]; exact seesElem)
        (fun d member => less d (by simp [member])) (by
          simp only [List.length_append, List.length_cons] at enough
          omega)
      refine ⟨first, rest, ?_, seesFirst, unseen, ?_⟩
      · rw [← parts]
        simp
      · rw [Option.some_or]
        simp only [Option.bind_eq_bind, Option.bind_some, less e (by simp)]
        rw [last] at walked
        exact walked

/-- What the loops over the levels keep: the header is in front of the place, all between them is
seen at none of the levels to come, and the next element at the last level was not the key. -/
structure Descent (list : SkipList Key Score Value) (score : Score) (key : Key) (front back : List Nat)
    (i : Nat) (first : List Nat) (topLevel : Option (Option Nat)) : Prop where
  parts : ∃ rest, front = first ++ rest
  sees : ∀ j, j < i → below list.level first.getLast? j = true
  top : ∀ next, topLevel = some next → next = nextAt (below list.level) i back
  notKey : ∀ e, topLevel = some (some e) → list.compare score key e ≠ some .eq

/-- A level of the descent. -/
theorem Descent.level {first : List Nat} {topLevel : Option (Option Nat)}
    (linked : Linked (below list.level) list.levels (front ++ back)) (nodup : (front ++ back).Nodup)
    (less : ∀ e ∈ front, list.compare score key e = some .gt)
    (notLess : ∀ e ∈ back, ∃ o, list.compare score key e = some o ∧ o ≠ .gt)
    (enough : front.length ≤ list.made)
    (descent : Descent list score key front back (i + 1) first topLevel) :
    ∃ next, (list.levels first.getLast?)[i]? = some next ∧
      (topLevel = some next → first.getLast? = lastAt (below list.level) i front ∧
        Descent list score key front back i first topLevel) ∧
      (topLevel ≠ some next →
        (∃ e, nextAt (below list.level) i back = some e ∧ list.compare score key e = some .eq ∧
          list.walk score key i (list.made + 1) first.getLast? = some (.found e)) ∨
        ∃ first', first'.getLast? = lastAt (below list.level) i front ∧
          list.walk score key i (list.made + 1) first.getLast? =
            some (.stopped first'.getLast? (nextAt (below list.level) i back)) ∧
          Descent list score key front back i first'
            (some (nextAt (below list.level) i back))) := by
  obtain ⟨mid, rfl⟩ := descent.parts
  have sees := descent.sees i (Nat.lt_succ_self i)
  have link := linked first (mid ++ back) (by simp) i sees
  -- where the last one is that is seen at the level
  have last : ∀ {f r : List Nat}, f ++ r = first ++ mid → below list.level f.getLast? i = true →
      (∀ e ∈ r, below list.level (some e) i = false) →
        f.getLast? = lastAt (below list.level) i (first ++ mid) := by
    intro f r same seesLast unseen
    rw [← same, lastAt_append_of_unseen unseen, lastAt_of_seen seesLast]
  have onward : ∀ {f r : List Nat} {top : Option (Option Nat)}, f ++ r = first ++ mid →
      below list.level f.getLast? i = true →
      (∀ next, top = some next → next = nextAt (below list.level) i back) →
      (∀ e, top = some (some e) → list.compare score key e ≠ some .eq) →
        Descent list score key (first ++ mid) back i f top := by
    intro f r top same seesLast tops notKey
    refine ⟨⟨r, same.symm⟩, fun j lower => ?_, tops, notKey⟩
    rw [below_iff] at seesLast ⊢
    exact lower.trans seesLast
  refine ⟨_, link, fun skipped => ?_, fun other => ?_⟩
  · -- the level points to the same element as the one before, which is not between
    have top := descent.top _ skipped
    have unseen : ∀ e ∈ mid, below list.level (some e) i = false := by
      rw [← nextAt_eq_none]
      by_contra some'
      obtain ⟨e, found⟩ := Option.ne_none_iff_exists'.mp some'
      rw [nextAt_append, found, Option.some_or] at top
      have inBack := mem_of_nextAt top.symm
      have inMid := mem_of_nextAt found
      exact (List.nodup_append.mp nodup).2.2 e (by simp [inMid]) e inBack rfl
    refine ⟨last rfl sees unseen, onward rfl sees (fun next same => ?_) descent.notKey⟩
    rw [skipped, Option.some_inj] at same
    rw [← same, nextAt_append_of_unseen unseen]
  · obtain ⟨f, r, same, seesLast, unseen, walked⟩ := walk_spec (by simpa using linked) sees
      (fun e member => less e (List.mem_append_right _ member)) notLess
      (show mid.length < list.made + 1 by
        rw [List.length_append] at enough
        omega)
    rw [walked]
    cases place : nextAt (below list.level) i back with
    | none =>
      refine .inr ⟨f, last same.symm seesLast unseen, rfl,
        onward same.symm seesLast (fun next same => ?_) fun e same => by cases same⟩
      rw [Option.some_inj] at same
      rw [place, same]
    | some e =>
      dsimp only
      by_cases key : list.compare score key e = some .eq
      · exact .inl ⟨e, rfl, key, if_pos key⟩
      · refine .inr ⟨f, last same.symm seesLast unseen, if_neg key,
          onward same.symm seesLast (fun next same => ?_) fun d same => ?_⟩
        · rw [Option.some_inj] at same
          rw [place, same]
        · rw [Option.some_inj, Option.some_inj] at same
          rw [← same]
          exact key

/-- The key is found, if there is an element with it. -/
theorem search_found {e : Nat} {first : List Nat} {topLevel : Option (Option Nat)}
    (linked : Linked (below list.level) list.levels (front ++ e :: back))
    (nodup : (front ++ e :: back).Nodup)
    (less : ∀ d ∈ front, list.compare score key d = some .gt)
    (same : list.compare score key e = some .eq)
    (greater : ∀ d ∈ back, list.compare score key d = some .lt)
    (enough : front.length ≤ list.made) (positive : 0 < list.level (some e))
    (within : list.level (some e) ≤ i) (prevElemHeaders : List (Option Nat))
    (descent : Descent list score key front (e :: back) i first topLevel) :
    list.search score key i first.getLast? topLevel prevElemHeaders = some (.found e) := by
  have notLess : ∀ d ∈ e :: back, ∃ o, list.compare score key d = some o ∧ o ≠ .gt := by
    refine List.forall_mem_cons.mpr ⟨⟨_, same, by decide⟩, fun d member => ?_⟩
    exact ⟨_, greater d member, by decide⟩
  induction i generalizing first topLevel prevElemHeaders with
  | zero => omega
  | succ i inductionHypothesis =>
    obtain ⟨next, link, skip, other⟩ := descent.level linked nodup less notLess enough
    -- the element is not passed by
    have lower : ∀ {first' topLevel' next'}, topLevel' = some next' →
        Descent list score key front (e :: back) i first' topLevel' →
          list.level (some e) ≤ i := by
      intro first' topLevel' next' tops descent
      by_contra higher
      have found : nextAt (below list.level) i (e :: back) = some e := nextAt_cons_of_lt (by omega)
      have top := descent.top next' tops
      rw [found] at top
      exact descent.notKey e (top ▸ tops) same
    rw [search, link]
    simp only [Option.bind_eq_bind, Option.bind_some]
    by_cases skipped : topLevel = some next
    · obtain ⟨-, onward⟩ := skip skipped
      rw [if_pos skipped]
      exact inductionHypothesis (lower skipped onward) _ onward
    · rw [if_neg skipped]
      rcases other skipped with ⟨d, place, key, walked⟩ | ⟨first', -, walked, onward⟩
      · have isHead : d = e := by
          rcases List.mem_cons.mp (mem_of_nextAt place) with is | behind
          · exact is
          · rw [greater d behind] at key
            cases key
        rw [walked, isHead]
        rfl
      · rw [walked]
        exact inductionHypothesis (lower rfl onward) _ onward

/-- And if there is none, the headers in front of its place, at each level. -/
theorem search_absent {first : List Nat} {topLevel : Option (Option Nat)}
    (linked : Linked (below list.level) list.levels (front ++ back)) (nodup : (front ++ back).Nodup)
    (less : ∀ d ∈ front, list.compare score key d = some .gt)
    (greater : ∀ d ∈ back, list.compare score key d = some .lt)
    (enough : front.length ≤ list.made) (prevElemHeaders : List (Option Nat))
    (descent : Descent list score key front back i first topLevel) :
    list.search score key i first.getLast? topLevel prevElemHeaders = some (.absent
      ((List.range i).map (fun j => lastAt (below list.level) j front) ++ prevElemHeaders)) := by
  have notLess : ∀ d ∈ back, ∃ o, list.compare score key d = some o ∧ o ≠ .gt :=
    fun d member => ⟨_, greater d member, by decide⟩
  induction i generalizing first topLevel prevElemHeaders with
  | zero => rfl
  | succ i inductionHypothesis =>
    obtain ⟨next, link, skip, other⟩ := descent.level linked nodup less notLess enough
    have longer : ∀ header, header = lastAt (below list.level) i front →
        (List.range i).map (fun j => lastAt (below list.level) j front) ++
            header :: prevElemHeaders =
          (List.range (i + 1)).map (fun j => lastAt (below list.level) j front) ++
            prevElemHeaders := by
      rintro header rfl
      rw [List.range_succ, List.map_append, List.append_assoc]
      rfl
    rw [search, link]
    simp only [Option.bind_eq_bind, Option.bind_some]
    by_cases skipped : topLevel = some next
    · obtain ⟨last, onward⟩ := skip skipped
      rw [if_pos skipped, inductionHypothesis _ onward, longer _ last]
    · rw [if_neg skipped]
      rcases other skipped with ⟨d, place, key, -⟩ | ⟨first', last, walked, onward⟩
      · rw [greater d (mem_of_nextAt place)] at key
        cases key
      · rw [walked, ← longer _ last]
        exact inductionHypothesis _ onward

/-- The first element whose key is not less. -/
theorem seek_spec {first : List Nat} {topLevel : Option (Option Nat)} {elem : Option Nat}
    (linked : Linked (below list.level) list.levels (front ++ back)) (nodup : (front ++ back).Nodup)
    (less : ∀ d ∈ front, list.compare score key d = some .gt)
    (notLess : ∀ d ∈ back, ∃ o, list.compare score key d = some o ∧ o ≠ .gt)
    (greater : ∀ d ∈ back.tail, list.compare score key d = some .lt)
    (enough : front.length ≤ list.made) (positive : ∀ d ∈ back, 0 < list.level (some d))
    (descent : Descent list score key front back i first topLevel)
    (so_far : topLevel = none ∧ elem = none ∧ 0 < i ∨ elem = nextAt (below list.level) i back) :
    list.seek score key i first.getLast? topLevel elem = some back.head? := by
  induction i generalizing first topLevel elem with
  | zero =>
    rcases so_far with ⟨-, -, more⟩ | is
    · exact absurd more (Nat.lt_irrefl 0)
    rw [seek, is]
    cases back with
    | nil => rfl
    | cons d back => rw [nextAt_cons_of_lt (positive d List.mem_cons_self), List.head?_cons]
  | succ i inductionHypothesis =>
    obtain ⟨next, link, skip, other⟩ := descent.level linked nodup less notLess enough
    rw [seek, link]
    simp only [Option.bind_eq_bind, Option.bind_some]
    by_cases skipped : topLevel = some next
    · obtain ⟨-, onward⟩ := skip skipped
      rw [if_pos skipped]
      refine inductionHypothesis onward (.inr ?_)
      rcases so_far with ⟨none, -⟩ | is
      · rw [none] at skipped
        cases skipped
      · rw [is, ← descent.top next skipped]
        exact onward.top next skipped
    · rw [if_neg skipped]
      rcases other skipped with ⟨d, place, key, walked⟩ | ⟨first', -, walked, onward⟩
      · rw [walked]
        cases back with
        | nil => cases place
        | cons e back =>
          rcases List.mem_cons.mp (mem_of_nextAt place) with rfl | behind
          · rfl
          · rw [greater d behind] at key
            cases key
      · rw [walked]
        refine inductionHypothesis onward (.inr ?_)
        cases here : nextAt (below list.level) i back with
        | some e => rfl
        | none =>
          have before : elem = none := by
            rcases so_far with ⟨-, none, -⟩ | is
            · exact none
            · rw [is, nextAt_eq_none]
              intro d member
              have := below_eq_false.mp (nextAt_eq_none.mp here d member)
              rw [below_eq_false]
              omega
          rw [before]
          rfl

end SkipList

end Frobio.Skiplist
