/-
This file proves that each call of a skip list is answered as it is with a table, if the keys obey
the rules that `Scorable` asks for: a score never says other than the comparison of the keys.
-/

import Mathlib.Data.List.TakeWhile
import Frobio.Skiplist.Rows
import Frobio.Skiplist.Table

namespace Frobio.Skiplist

open Std (TransCmp)
open Tower

/-- The heap holds the entries of this table. -/
structure Sound {Key Score Value : Type} (comparable : Comparable Key Score)
    (list : SkipList Key Score Value) (table : Table comparable.compare Value) : Prop where
  shaped : SkipList.Shaped list table.elems
  ordered : list.comparable = comparable
  made : list.made = table.made
  leveled : 0 < list.maxLevel
  holds : ∀ e ∈ table.entries,
    list.content e.elem = some ⟨e.key, comparable.calcScore e.key, e.value⟩

theorem randLevelFrom_bounds (rand : Nat → Nat) (left i : Nat) :
    i ≤ randLevelFrom rand left i ∧ randLevelFrom rand left i ≤ i + left := by
  induction left generalizing i with
  | zero => exact ⟨le_rfl, le_rfl⟩
  | succ left inductionHypothesis =>
    rw [randLevelFrom]
    split
    · exact ⟨le_rfl, by omega⟩
    · obtain ⟨least, most⟩ := inductionHypothesis (i + 1)
      omega

theorem randLevel_bounds {maxLevel : Nat} (positive : 0 < maxLevel) (rand : Nat → Nat) :
    0 < randLevel maxLevel rand ∧ randLevel maxLevel rand ≤ maxLevel := by
  obtain ⟨least, most⟩ := randLevelFrom_bounds rand (maxLevel - 1) 1
  rw [randLevel]
  omega

section

variable {Key Score Value : Type} {comparable : Comparable Key Score}
  {list : SkipList Key Score Value} {table : Table comparable.compare Value} {key : Key}

namespace Sound

/-! ### What the list holds -/

theorem length_le (sound : Sound comparable list table) : table.entries.length ≤ list.made := by
  have within := sound.shaped.length_le
  rwa [Table.elems, List.length_map] at within

theorem length_ahead (sound : Sound comparable list table) (key : Key) :
    ((table.ahead key).map (·.elem)).length ≤ list.made := by
  rw [List.length_map]
  exact (List.takeWhile_prefix _).length_le.trans sound.length_le

theorem front (sound : Sound comparable list table) : list.front = some table.elems.head? := by
  have header : 0 < list.level none := sound.shaped.header ▸ sound.leveled
  rw [SkipList.front, sound.shaped.linked.header (below_iff.mpr header),
    nextAt_zero fun e member => (sound.shaped.heights e member).1]

theorem front_eq (sound : Sound comparable list table) :
    list.front = some (table.entries.head?.map (·.elem)) := by
  rw [sound.front, Table.elems, List.head?_map]

theorem back_eq (sound : Sound comparable list table) :
    list.back = table.entries.getLast?.map (·.elem) := by
  rw [sound.shaped.back, Table.elems, List.getLast?_map]

theorem length_eq_zero (sound : Sound comparable list table) : list.length = 0 ↔ table.entries = [] := by
  rw [sound.shaped.length, Table.elems, List.length_map, List.length_eq_zero_iff]

theorem next (sound : Sound comparable list table) (elem : Nat) : list.next elem = table.next elem := by
  by_cases member : elem ∈ table.elems
  · obtain ⟨front, back, place⟩ := List.append_of_mem member
    rw [Table.next_of_split place, SkipList.Shaped.next (place ▸ sound.shaped)]
  · have none : table.elems.dropWhile (· ≠ elem) = [] := by
      refine List.dropWhile_eq_nil_iff.mpr fun e inside => ?_
      rw [decide_eq_true_iff]
      rintro rfl
      exact member inside
    rw [SkipList.next, (sound.shaped.outside elem member).1, Table.next, none]
    rfl

theorem prev (sound : Sound comparable list table) (elem : Nat) : list.prev elem = table.prev elem := by
  by_cases member : elem ∈ table.elems
  · obtain ⟨front, back, place⟩ := List.append_of_mem member
    rw [Table.prev_of_split place, SkipList.Shaped.prev (place ▸ sound.shaped)]
  · rw [(sound.shaped.outside elem member).2, Table.prev, if_neg member]

theorem entry (sound : Sound comparable list table) {e : Entry Key Value}
    (member : e ∈ table.entries) : list.entry e.elem = some e := by
  rw [SkipList.entry, sound.holds e member]
  rfl

/-- A caller sees the entry of an element. -/
theorem element (sound : Sound comparable list table) {elem : Option Nat}
    (inside : ∀ e, elem = some e → e ∈ table.elems) : list.element elem = table.element elem := by
  cases elem with
  | none => rfl
  | some e =>
    obtain ⟨d, member, rfl⟩ := List.mem_map.mp (inside e rfl)
    rw [SkipList.element, Table.element, Option.bind_some, Option.bind_some, sound.entry member,
      Table.entry_of_mem member]

theorem element_map (sound : Sound comparable list table) {found : Option (Entry Key Value)}
    (inside : ∀ e, found = some e → e ∈ table.entries) :
    list.element (found.map (·.elem)) = .element found := by
  cases found with
  | none => rfl
  | some e =>
    rw [Option.map_some, SkipList.element, Option.bind_some, sound.entry (inside e rfl)]

/-! ### Changes -/

/-- With another value for a key. -/
theorem setValue {elem : Nat} {c : Content Key Score Value} {value : Value}
    (sound : Sound comparable list table) (holds : list.content elem = some c) :
    Sound comparable
      { list with content := Function.update list.content elem (some { c with value }) }
      (table.setValue elem value) := by
  refine ⟨?_, sound.ordered, sound.made, sound.leveled, ?_⟩
  · rw [Table.elems_setValue]
    obtain ⟨nodup, older, length, back, header, linked, backed, inList, heights, outside⟩ :=
      sound.shaped
    exact ⟨nodup, older, length, back, header, linked, backed, inList, heights, outside⟩
  · intro e member
    obtain ⟨d, old, rfl⟩ := List.mem_map.mp member
    by_cases same : d.elem = elem
    · rw [if_pos same]
      show Function.update list.content elem _ d.elem = _
      rw [same, Function.update_self]
      have was := sound.holds d old
      rw [same, holds, Option.some_inj] at was
      rw [was]
    · rw [if_neg same]
      show Function.update list.content elem _ d.elem = _
      rw [Function.update_of_ne same, sound.holds d old]

/-- With a new element in its place. -/
theorem insert [TransCmp comparable.compare] {n : Nat} {value : Value} {list' : SkipList Key Score Value}
    (sound : Sound comparable list table) (absent : ∀ e ∈ table.entries, comparable.compare key e.key ≠ .eq)
    (positive : 0 < n) (within : n ≤ list.maxLevel)
    (inserted : SkipList.Inserted list ⟨key, comparable.calcScore key, value⟩
      ((table.ahead key).map (·.elem)) ((table.behind key).map (·.elem)) n list') :
    Sound comparable list' (table.insert key value absent) := by
  constructor
  · rw [Table.elems_insert, ← sound.made]
    exact SkipList.Shaped.inserted (table.elems_eq key ▸ sound.shaped) inserted positive within
  · rw [inserted.comparable, sound.ordered]
  · rw [inserted.made, sound.made]
    rfl
  · rw [inserted.maxLevel]
    exact sound.leveled
  · intro e member
    rw [inserted.content]
    rcases Table.mem_insert.mp member with rfl | old
    · rw [← sound.made, Function.update_self]
    · have apart : e.elem ≠ list.made := by
        rw [sound.made]
        exact (table.older e old).ne
      rw [Function.update_of_ne apart, sound.holds e old]

theorem removeElement (sound : Sound comparable list table) (elem : Nat) : ∃ list',
    list.removeElement elem = some list' ∧ Sound comparable list' (table.erase elem) ∧
      list'.content = list.content := by
  by_cases member : elem ∈ table.elems
  · obtain ⟨front, back, place⟩ := List.append_of_mem member
    have shaped := place ▸ sound.shaped
    obtain ⟨list', removes, removed⟩ := shaped.removeElement
    refine ⟨list', removes, ⟨?_, ?_, ?_, ?_, ?_⟩, removed.content⟩
    · have out := (List.nodup_cons.mp (List.nodup_middle.mp shaped.nodup)).1
      rw [List.mem_append, not_or] at out
      have rest : table.elems.filter (· ≠ elem) = front ++ back := by
        have keep : ∀ part : List Nat, elem ∉ part → part.filter (· ≠ elem) = part := by
          intro part free
          refine List.filter_eq_self.mpr fun e inside => ?_
          rw [decide_eq_true_iff]
          rintro rfl
          exact free inside
        rw [place, List.filter_append, keep front out.1,
          List.filter_cons_of_neg (by simp), keep back out.2]
      rw [Table.elems_erase, rest]
      exact shaped.removed removed
    · rw [removed.comparable, sound.ordered]
    · rw [removed.made, sound.made]
      rfl
    · rw [removed.maxLevel]
      exact sound.leveled
    · intro e inside
      rw [removed.content]
      exact sound.holds e (List.mem_of_mem_filter inside)
  · refine ⟨list, ?_, ?_, rfl⟩
    · rw [SkipList.removeElement, if_pos]
      · rfl
      · rw [← Bool.not_eq_true, sound.shaped.inList]
        exact member
    · rw [Table.erase_of_not_mem member]
      exact sound

/-- An element is removed, and its entry is seen. -/
theorem removeEntry (sound : Sound comparable list table) {e : Entry Key Value}
    (member : e ∈ table.entries) : ∃ list', list.removeElement e.elem = some list' ∧
      list'.element (some e.elem) = .element (some e) ∧
      Sound comparable list' (table.erase e.elem) := by
  obtain ⟨list', removes, sound', content⟩ := sound.removeElement e.elem
  refine ⟨list', removes, ?_, sound'⟩
  rw [SkipList.element, Option.bind_some, SkipList.entry, content, ← SkipList.entry,
    sound.entry member]

end Sound

end

/-! ### Scores -/

/-- The rules that `Scorable` asks for. -/
structure Scores {Key Score : Type} [LinearOrder Score] (comparable : Comparable Key Score) : Prop where
  of_gt : ∀ a b, comparable.compare a b = .gt → comparable.calcScore b ≤ comparable.calcScore a
  of_lt : ∀ a b, comparable.compare a b = .lt → comparable.calcScore a ≤ comparable.calcScore b
  of_eq : ∀ a b, comparable.compare a b = .eq → comparable.calcScore a = comparable.calcScore b

variable {Key Score Value : Type} [LinearOrder Score] {comparable : Comparable Key Score}

/-- Scores make no difference. -/
theorem compare_eq (scores : Scores comparable) {list : SkipList Key Score Value}
    (same : list.comparable = comparable) {elem : Nat} {key other : Key} {value : Value}
    (holds : list.content elem = some ⟨other, comparable.calcScore other, value⟩) :
    list.compare (comparable.calcScore key) key elem = some (comparable.compare key other) := by
  rw [SkipList.compare, holds, Option.map_some, same]
  dsimp only
  by_cases equal : comparable.calcScore key = comparable.calcScore other
  · rw [if_neg (not_not.mpr equal)]
  · rw [if_pos equal]
    cases compared : comparable.compare key other with
    | lt =>
      have less := lt_of_le_of_ne (scores.of_lt _ _ compared) equal
      rw [if_neg less.le.not_gt, if_pos less]
    | eq => exact absurd (scores.of_eq _ _ compared) equal
    | gt => rw [if_pos (lt_of_le_of_ne (scores.of_gt _ _ compared) (Ne.symm equal))]

namespace Sound

variable {list : SkipList Key Score Value} {table : Table comparable.compare Value} {key : Key}

theorem compare_ahead (sound : Sound comparable list table) (scores : Scores comparable) :
    ∀ e ∈ (table.ahead key).map (·.elem),
      list.compare (comparable.calcScore key) key e = some .gt := by
  intro e member
  obtain ⟨d, inside, rfl⟩ := List.mem_map.mp member
  have entry : d ∈ table.entries := by
    rw [← table.ahead_append_behind key]
    exact List.mem_append_left _ inside
  rw [compare_eq scores sound.ordered (sound.holds d entry), Table.gt_of_mem_ahead inside]

theorem compare_behind (sound : Sound comparable list table) (scores : Scores comparable)
    {d : Entry Key Value} (member : d ∈ table.behind key) :
    list.compare (comparable.calcScore key) key d.elem = some (comparable.compare key d.key) := by
  have entry : d ∈ table.entries := by
    rw [← table.ahead_append_behind key]
    exact List.mem_append_right _ member
  exact compare_eq scores sound.ordered (sound.holds d entry)

/-- The loops begin in front of all. -/
theorem descent (sound : Sound comparable list table) (key : Key) :
    SkipList.Descent list (comparable.calcScore key) key ((table.ahead key).map (·.elem))
      ((table.behind key).map (·.elem)) (list.level none) [] none where
  parts := ⟨_, rfl⟩
  sees := fun _ lower => below_iff.mpr lower
  top := fun _ same => by cases same
  notKey := fun _ same => by cases same

variable [TransCmp comparable.compare]

theorem compare_notGt (sound : Sound comparable list table)
    (scores : Scores comparable) : ∀ e ∈ (table.behind key).map (·.elem),
      ∃ o, list.compare (comparable.calcScore key) key e = some o ∧ o ≠ .gt := by
  intro e member
  obtain ⟨d, inside, rfl⟩ := List.mem_map.mp member
  exact ⟨_, sound.compare_behind scores inside, Table.notGt_of_mem_behind inside⟩

theorem compare_tail (sound : Sound comparable list table)
    (scores : Scores comparable) : ∀ e ∈ ((table.behind key).map (·.elem)).tail,
      list.compare (comparable.calcScore key) key e = some .lt := by
  intro e member
  cases place : table.behind key with
  | nil => rw [place] at member; cases member
  | cons f rest =>
    rw [place, List.map_cons, List.tail_cons] at member
    obtain ⟨d, later, rfl⟩ := List.mem_map.mp member
    rw [sound.compare_behind scores (place ▸ List.mem_cons_of_mem _ later),
      Table.lt_of_mem_behind place later]

/-- The key of the last element is less just when there is none behind. -/
theorem compare_back (sound : Sound comparable list table) (scores : Scores comparable) (key : Key)
    {back : Nat} (last : list.back = some back) :
    ∃ o, list.compare (comparable.calcScore key) key back = some o ∧
      (o = .gt ↔ table.behind key = []) := by
  rw [sound.shaped.back, table.elems_eq key] at last
  rcases List.eq_nil_or_concat' (table.behind key) with none | ⟨rest, e, place⟩
  · rw [none, List.map_nil, List.append_nil] at last
    exact ⟨_, sound.compare_ahead scores back (List.mem_of_getLast? last), by simp [none]⟩
  · have member : e.elem ∈ (table.behind key).map (·.elem) := by simp [place]
    rw [place, List.map_append, List.map_singleton, ← List.append_assoc, List.getLast?_concat,
      Option.some_inj] at last
    obtain ⟨o, compared, notGt⟩ := sound.compare_notGt scores e.elem member
    exact ⟨o, last ▸ compared, by simp [notGt, place]⟩

/-! ### Finding -/

/-- What `Set` finds. -/
theorem search (sound : Sound comparable list table) (scores : Scores comparable) :
    list.search (comparable.calcScore key) key (list.level none) none none [] = some
      (match table.find key with
      | some e => .found e.elem
      | none => .absent ((List.range (list.level none)).map fun i =>
          lastAt (below list.level) i ((table.ahead key).map (·.elem)))) := by
  have linked := sound.shaped.linked
  have nodup : table.elems.Nodup := table.nodup
  rw [table.elems_eq key] at linked nodup
  have less : ∀ e ∈ (table.ahead key).map (·.elem),
      list.compare (comparable.calcScore key) key e = some .gt := sound.compare_ahead scores
  have descent := sound.descent key
  have enough := sound.length_ahead key
  have absent : (∀ e rest, table.behind key = e :: rest → comparable.compare key e.key ≠ .eq) →
      (∀ d ∈ (table.behind key).map (·.elem),
        list.compare (comparable.calcScore key) key d = some .lt) := by
    intro other d member
    obtain ⟨e, inside, rfl⟩ := List.mem_map.mp member
    rw [sound.compare_behind scores inside]
    cases place : table.behind key with
    | nil => rw [place] at inside; cases inside
    | cons f rest =>
      rw [place] at inside
      rcases List.mem_cons.mp inside with rfl | later
      · have notGt := Table.head_behind place
        have notEq := other e rest place
        cases compared : comparable.compare key e.key with
        | lt => rfl
        | eq => exact absurd compared notEq
        | gt => exact absurd compared notGt
      · rw [Table.lt_of_mem_behind place later]
  by_cases hit : ∃ e rest, table.behind key = e :: rest ∧ comparable.compare key e.key = .eq
  · obtain ⟨e, rest, place, same⟩ := hit
    rw [Table.find_of_eq place same]
    have inside : e.elem ∈ table.elems := by
      rw [table.elems_eq key, place]
      simp
    rw [place, List.map_cons] at linked nodup descent
    refine SkipList.search_found linked nodup less ?_ ?_ enough (sound.shaped.heights _ inside).1 ?_ []
      descent
    · rw [sound.compare_behind scores (place ▸ List.mem_cons_self), same]
    · intro d member
      obtain ⟨f, later, rfl⟩ := List.mem_map.mp member
      rw [sound.compare_behind scores (place ▸ List.mem_cons_of_mem _ later),
        Table.lt_of_mem_behind place later]
    · rw [sound.shaped.header]
      exact (sound.shaped.heights _ inside).2
  · have other : ∀ e rest, table.behind key = e :: rest → comparable.compare key e.key ≠ .eq :=
      fun e rest place same => hit ⟨e, rest, place, same⟩
    rw [Table.find_eq_none other]
    have searched := SkipList.search_absent linked nodup less (absent other) enough [] descent
    rwa [List.append_nil] at searched

theorem seek (sound : Sound comparable list table) (scores : Scores comparable)
    {before rest : List Nat} (place : (table.ahead key).map (·.elem) = before ++ rest)
    (high : 0 < list.level before.getLast?) :
    list.seek (comparable.calcScore key) key (list.level before.getLast?) before.getLast? none none =
      some ((table.behind key).map (·.elem)).head? := by
  have linked := sound.shaped.linked
  have nodup : table.elems.Nodup := table.nodup
  rw [table.elems_eq key] at linked nodup
  refine SkipList.seek_spec linked nodup (sound.compare_ahead scores) (sound.compare_notGt scores)
    (sound.compare_tail scores) (sound.length_ahead key) (fun e member => ?_) ?_
    (.inl ⟨rfl, rfl, high⟩)
  · refine (sound.shaped.heights e ?_).1
    rw [table.elems_eq key]
    exact List.mem_append_right _ member
  · exact ⟨⟨rest, place⟩, fun _ lower => below_iff.mpr lower, fun _ same => (by cases same),
      fun _ same => (by cases same)⟩

/-- What `findNext` does when the key of the start is less. -/
theorem seek_from (sound : Sound comparable list table) (scores : Scores comparable)
    (some' : table.elems ≠ []) {before rest : List Nat}
    (place : (table.ahead key).map (·.elem) = before ++ rest)
    (high : 0 < list.level before.getLast?) :
    (list.back.bind fun back => (list.compare (comparable.calcScore key) key back).bind fun o =>
      if o = .gt then some none
      else list.seek (comparable.calcScore key) key (list.level before.getLast?) before.getLast?
        none none) = some ((table.behind key).map (·.elem)).head? := by
  obtain ⟨back, last⟩ := Option.ne_none_iff_exists'.mp fun none =>
    some' (List.getLast?_eq_none_iff.mp (sound.shaped.back.symm.trans none))
  obtain ⟨o, compared, only⟩ := sound.compare_back scores key last
  rw [last, Option.bind_some, compared, Option.bind_some]
  by_cases gt : o = .gt
  · rw [if_pos gt, only.mp gt]
    rfl
  · rw [if_neg gt, sound.seek scores place high]

theorem findNext (sound : Sound comparable list table) (scores : Scores comparable)
    {start : Option Nat} (inside : ∀ s, start = some s → s ∈ table.elems) :
    list.findNext start (comparable.calcScore key) key = some (table.findNext start key) := by
  rw [SkipList.findNext]
  by_cases empty : list.length = 0
  · rw [sound.shaped.length] at empty
    have none := List.eq_nil_of_length_eq_zero empty
    rw [sound.shaped.length, if_pos empty]
    have entries : table.entries = [] := List.map_eq_nil_iff.mp none
    cases start with
    | none => simp [Table.findNext, entries]
    | some s => simp [none] at inside
  have some' : table.elems ≠ [] := by
    rw [sound.shaped.length] at empty
    exact fun none => empty (by rw [none]; rfl)
  rw [if_neg empty, sound.front, Option.join_some]
  simp only [Option.pure_def, Option.bind_eq_bind]
  cases start with
  | none =>
    have place : (table.ahead key).map (·.elem) = [] ++ (table.ahead key).map (·.elem) := rfl
    have from' := sound.seek_from scores some' place (sound.shaped.header ▸ sound.leveled)
    rw [Table.findNext_none, table.elems_eq key, List.head?_append]
    cases ahead : (table.ahead key).map (·.elem) with
    | cons first rest =>
      have less := sound.compare_ahead scores first (ahead ▸ List.mem_cons_self)
      rw [List.head?_cons, Option.some_or, Option.none_or]
      simp only [Option.bind_some, less]
      exact from'
    | nil =>
      rw [List.head?_nil, Option.none_or]
      cases behind : (table.behind key).map (·.elem) with
      | nil =>
        rw [table.elems_eq key, ahead, behind] at some'
        exact absurd rfl some'
      | cons first rest =>
        obtain ⟨o, compared, notGt⟩ := sound.compare_notGt scores first (behind ▸ List.mem_cons_self)
        rw [List.head?_cons, Option.none_or]
        simp only [Option.bind_some, compared]
        rw [if_pos]
        cases o with
        | lt => rfl
        | eq => rfl
        | gt => exact absurd rfl notGt
  | some s =>
    obtain ⟨e, member, rfl⟩ := List.mem_map.mp (inside s rfl)
    rw [Option.some_or]
    simp only [Option.bind_some]
    have parts : e ∈ table.ahead key ∨ e ∈ table.behind key := Table.mem_ahead_or_behind.mp member
    rcases parts with ahead | behind
    · have less := sound.compare_ahead scores e.elem (List.mem_map_of_mem ahead)
      obtain ⟨before, rest, place⟩ := List.append_of_mem ahead
      have last : ((before ++ [e]).map (·.elem)).getLast? = some e.elem := by simp
      have place' : (table.ahead key).map (·.elem) =
          (before ++ [e]).map (·.elem) ++ rest.map (·.elem) := by simp [place]
      have from' := sound.seek_from scores some' place'
        (by rw [last]; exact (sound.shaped.heights _ (inside _ rfl)).1)
      rw [last] at from'
      rw [Table.findNext_of_split place]
      simp only [less, Option.bind_some]
      exact from'
    · obtain ⟨o, compared, notGt⟩ := sound.compare_notGt scores e.elem (List.mem_map_of_mem behind)
      rw [Table.findNext_of_notGt member (Table.notGt_of_mem_behind behind)]
      simp only [compared, Option.bind_some]
      rw [if_pos]
      cases o with
      | lt => rfl
      | eq => rfl
      | gt => exact absurd rfl notGt

theorem get (sound : Sound comparable list table) (scores : Scores comparable) :
    list.get key = some ((table.find key).map (·.elem)) := by
  rw [SkipList.get]
  simp only [sound.ordered]
  rw [sound.findNext scores (fun s is => by cases is), Table.findNext_none, Table.find_eq_head]
  simp only [Option.bind_eq_bind, Option.bind_some]
  cases place : table.behind key with
  | nil => rfl
  | cons e rest =>
    rw [List.map_cons, List.head?_cons, List.head?_cons, Option.filter_some]
    simp only [sound.compare_behind scores (place ▸ List.mem_cons_self), Option.bind_some]
    by_cases same : comparable.compare key e.key = .eq
    · rw [if_neg (not_not.mpr same), if_pos (decide_eq_true same)]
      rfl
    · rw [if_pos same, if_neg (by simpa using same)]
      rfl

theorem getValue (sound : Sound comparable list table) (scores : Scores comparable) :
    list.getValue key = some (table.lookup key) := by
  rw [SkipList.getValue, sound.get scores, Table.lookup]
  cases found : table.find key with
  | none => rfl
  | some e =>
    have member : e ∈ table.entries := List.mem_of_find?_eq_some found
    simp only [Option.bind_eq_bind, Option.bind_some, Option.map_some, sound.holds e member]
    rfl

/-! ### Calls -/

theorem set (sound : Sound comparable list table) (scores : Scores comparable) (rand : Nat → Nat)
    (key : Key) (value : Value) : ∃ list',
      list.set rand key value = some (list', (table.set key value).2) ∧
        Sound comparable list' (table.set key value).1 := by
  obtain ⟨positive, within⟩ := randLevel_bounds sound.leveled rand
  have score : list.comparable.calcScore key = comparable.calcScore key := by rw [sound.ordered]
  rw [SkipList.set]
  simp only [score]
  by_cases empty : list.length = 0
  · rw [if_pos empty]
    rw [sound.shaped.length] at empty
    have none := List.eq_nil_of_length_eq_zero empty
    have entries : table.entries = [] := List.map_eq_nil_iff.mp none
    have missing : table.find key = Option.none := by rw [Table.find, entries, List.find?_nil]
    obtain ⟨absent, same⟩ := Table.set_of_absent value missing
    have shaped : SkipList.Shaped list [] := none ▸ sound.shaped
    obtain ⟨list', inserts, inserted⟩ :=
      shaped.insertFirst (comparable.calcScore key) key value positive within
    rw [same, ← sound.made]
    refine ⟨list', inserts, sound.insert absent positive within ?_⟩
    rw [Table.ahead, Table.behind, entries]
    exact inserted
  · rw [if_neg empty, sound.search scores]
    simp only [Option.bind_eq_bind, Option.bind_some]
    cases found : table.find key with
    | some e =>
      have member : e ∈ table.entries := List.mem_of_find?_eq_some found
      rw [Table.set_of_find value found]
      simp only [sound.holds e member, Option.bind_some]
      exact ⟨_, rfl, sound.setValue (sound.holds e member)⟩
    | none =>
      obtain ⟨absent, same⟩ := Table.set_of_absent value found
      have shaped : SkipList.Shaped list ((table.ahead key).map (·.elem) ++
          (table.behind key).map (·.elem)) := table.elems_eq key ▸ sound.shaped
      have prevs : ∀ i, i < list.maxLevel → ((List.range (list.level Option.none)).map fun i =>
          lastAt (below list.level) i ((table.ahead key).map (·.elem)))[i]? =
            some (lastAt (below list.level) i ((table.ahead key).map (·.elem))) := by
        intro i less
        rw [List.getElem?_map, List.getElem?_range (sound.shaped.header.symm ▸ less)]
        rfl
      obtain ⟨list', inserts, inserted⟩ :=
        shaped.insert (comparable.calcScore key) key value positive within prevs
      rw [same, ← sound.made]
      exact ⟨list', inserts, sound.insert absent positive within inserted⟩

/-- A call is answered as it is with the table. -/
theorem step (sound : Sound comparable list table) (scores : Scores comparable)
    {call : Call Key Value} (allows : table.Allows call) : ∃ list',
      list.step call = some (list', (table.step call).2) ∧
        Sound comparable list' (table.step call).1 := by
  have score : ∀ key, list.comparable.calcScore key = comparable.calcScore key :=
    fun key => by rw [sound.ordered]
  have find_mem : ∀ key e, table.find key = some e → e ∈ table.entries :=
    fun key e found => List.mem_of_find?_eq_some found
  cases call with
  | set rand key value =>
    obtain ⟨list', sets, sound'⟩ := sound.set scores rand key value
    refine ⟨list', ?_, sound'⟩
    rw [SkipList.step, sets]
    simp only [Option.bind_eq_bind, Option.bind_some]
    rw [sound'.element fun e is => Option.some.inj is ▸ table.set_mem key value]
    rfl
  | findNext start key =>
    refine ⟨list, ?_, sound⟩
    rw [SkipList.step]
    simp only [score, sound.findNext scores allows, Option.bind_eq_bind, Option.bind_some]
    rw [sound.element fun e found => Table.mem_of_findNext found]
    rfl
  | get key =>
    refine ⟨list, ?_, sound⟩
    rw [SkipList.step, sound.get scores]
    simp only [Option.bind_eq_bind, Option.bind_some]
    rw [sound.element_map (find_mem key)]
    rfl
  | getValue key =>
    refine ⟨list, ?_, sound⟩
    rw [SkipList.step, sound.getValue scores]
    rfl
  | remove key =>
    rw [SkipList.step, SkipList.remove, sound.get scores, Table.step]
    cases found : table.find key with
    | none => exact ⟨list, rfl, sound⟩
    | some e =>
      obtain ⟨list', removes, seen, sound'⟩ := sound.removeEntry (find_mem key e found)
      refine ⟨list', ?_, sound'⟩
      simp only [Option.map_some, Option.bind_eq_bind, Option.bind_some, removes]
      rw [← seen]
      rfl
  | removeElement elem =>
    obtain ⟨list', removes, sound', -⟩ := sound.removeElement elem
    refine ⟨list', ?_, sound'⟩
    rw [SkipList.step, removes]
    rfl
  | removeFront =>
    rw [SkipList.step, SkipList.removeFront, sound.front_eq, Table.step, Table.elems, List.head?_map]
    cases first : table.entries.head? with
    | none =>
      rw [if_pos (sound.length_eq_zero.mpr (List.head?_eq_none_iff.mp first))]
      exact ⟨list, rfl, sound⟩
    | some e =>
      obtain ⟨list', removes, seen, sound'⟩ := sound.removeEntry (List.mem_of_mem_head? first)
      refine ⟨list', ?_, sound'⟩
      rw [if_neg (by
        rw [sound.length_eq_zero, ← List.head?_eq_none_iff, first]
        exact Option.some_ne_none e)]
      simp only [Option.map_some, Option.bind_eq_bind, Option.bind_some, removes]
      rw [← seen]
      rfl
  | removeBack =>
    rw [SkipList.step, SkipList.removeBack, sound.back_eq, Table.step, Table.elems, List.getLast?_map]
    cases last : table.entries.getLast? with
    | none =>
      rw [if_pos (sound.length_eq_zero.mpr (List.getLast?_eq_none_iff.mp last))]
      exact ⟨list, rfl, sound⟩
    | some e =>
      obtain ⟨list', removes, seen, sound'⟩ := sound.removeEntry (List.mem_of_getLast? last)
      refine ⟨list', ?_, sound'⟩
      rw [if_neg (by
        rw [sound.length_eq_zero, ← List.getLast?_eq_none_iff, last]
        exact Option.some_ne_none e)]
      simp only [Option.map_some, Option.bind_eq_bind, Option.bind_some, removes]
      rw [← seen]
      rfl
  | front =>
    refine ⟨list, ?_, sound⟩
    rw [SkipList.step, sound.front_eq]
    simp only [Option.bind_eq_bind, Option.bind_some]
    rw [sound.element_map fun e first => List.mem_of_mem_head? first]
    rfl
  | back =>
    refine ⟨list, ?_, sound⟩
    rw [SkipList.step, sound.back_eq, sound.element_map fun e last => List.mem_of_getLast? last]
    rfl
  | len =>
    refine ⟨list, ?_, sound⟩
    rw [SkipList.step, sound.shaped.length, Table.elems, List.length_map]
    rfl
  | next elem =>
    refine ⟨list, ?_, sound⟩
    rw [SkipList.step, sound.next, sound.element fun e found => Table.mem_of_next found]
    rfl
  | prev elem =>
    refine ⟨list, ?_, sound⟩
    rw [SkipList.step, sound.prev, sound.element fun e found => Table.mem_of_prev found]
    rfl

end Sound

end Frobio.Skiplist
