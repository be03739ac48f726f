/-
This file says what the skip list is for: an ordered map, whose entries are told apart by the
elements that hold them. There is one entry at most for a key.

A `Table` carries the order of its keys, so that there is no table whose entries are out of order. A
key cuts it in two, what is `ahead` and what is `behind`, and a new entry goes between them.
-/

import Mathlib.Data.List.Nodup
import Mathlib.Tactic
import Frobio.Skiplist.SkipList

namespace Frobio.Skiplist

open Std (TransCmp OrientedCmp)

/-- Entries in the order of their keys, of elements older than the next that is made. -/
structure Table {Key : Type} (cmp : Key → Key → Ordering) (Value : Type) where
  entries : List (Entry Key Value)
  made : Nat
  sorted : entries.Pairwise fun a b => cmp a.key b.key = .lt
  nodup : (entries.map (·.elem)).Nodup
  older : ∀ e ∈ entries, e.elem < made

namespace Table

variable {Key Value : Type} {cmp : Key → Key → Ordering}

theorem ext {table other : Table cmp Value} (entries : table.entries = other.entries)
    (made : table.made = other.made) : table = other := by
  obtain ⟨_, _, _, _, _⟩ := table
  obtain ⟨_, _, _, _, _⟩ := other
  cases entries
  cases made
  rfl

def empty (cmp : Key → Key → Ordering) (Value : Type) : Table cmp Value where
  entries := []
  made := 0
  sorted := .nil
  nodup := .nil
  older := fun _ member => (List.not_mem_nil member).elim

variable (table : Table cmp Value) (key : Key)

def elems : List Nat := table.entries.map (·.elem)

/-- The entries with lesser keys. -/
def ahead : List (Entry Key Value) := table.entries.takeWhile fun e => cmp key e.key = .gt

def behind : List (Entry Key Value) := table.entries.dropWhile fun e => cmp key e.key = .gt

theorem ahead_append_behind : table.ahead key ++ table.behind key = table.entries :=
  List.takeWhile_append_dropWhile

variable {table key}

theorem gt_of_mem_ahead {e : Entry Key Value} (member : e ∈ table.ahead key) :
    cmp key e.key = .gt := by
  have all := List.all_eq_true.mp (@List.all_takeWhile _
    (fun e : Entry Key Value => decide (cmp key e.key = .gt)) table.entries)
  exact of_decide_eq_true (all e member)

theorem head_behind {e : Entry Key Value} {rest : List (Entry Key Value)}
    (place : table.behind key = e :: rest) : cmp key e.key ≠ .gt := by
  have head : (table.behind key).head? = some e := by rw [place]; rfl
  have stops := List.head?_dropWhile_not (fun e : Entry Key Value => decide (cmp key e.key = .gt))
    table.entries
  rw [show table.entries.dropWhile _ = table.behind key from rfl, head] at stops
  simpa using stops

theorem lt_of_mem_behind [TransCmp cmp] {e : Entry Key Value} {rest : List (Entry Key Value)}
    (place : table.behind key = e :: rest) {d : Entry Key Value} (member : d ∈ rest) :
    cmp key d.key = .lt := by
  have sorted := table.sorted
  rw [← table.ahead_append_behind key, place] at sorted
  have less := (List.pairwise_cons.mp (List.pairwise_append.mp sorted).2.1).1 d member
  refine TransCmp.lt_of_isLE_of_lt ?_ less
  have notGt := head_behind place
  cases compared : cmp key e.key with
  | lt => rfl
  | eq => rfl
  | gt => exact absurd compared notGt

/-- A value is put in for an old one. -/
def setValue (table : Table cmp Value) (elem : Nat) (value : Value) : Table cmp Value where
  entries := table.entries.map fun e => if e.elem = elem then { e with value } else e
  made := table.made
  sorted := by
    refine List.pairwise_map.mpr (table.sorted.imp fun {a b} less => ?_)
    have key_eq : ∀ e : Entry Key Value,
        (if e.elem = elem then { e with value } else e).key = e.key := fun e => by split <;> rfl
    rw [key_eq, key_eq]
    exact less
  nodup := by
    rw [List.map_map]
    have same : (fun e : Entry Key Value => e.elem) ∘
        (fun e => if e.elem = elem then { e with value } else e) = fun e => e.elem := by
      funext e
      rw [Function.comp_apply]
      split <;> rfl
    rw [same]
    exact table.nodup
  older := by
    intro e member
    obtain ⟨d, inside, rfl⟩ := List.mem_map.mp member
    have := table.older d inside
    split <;> exact this

/-- A new entry, for a key that there is none for. -/
def insert [TransCmp cmp] (table : Table cmp Value) (key : Key) (value : Value)
    (absent : ∀ e ∈ table.entries, cmp key e.key ≠ .eq) : Table cmp Value where
  entries := table.ahead key ++ ⟨table.made, key, value⟩ :: table.behind key
  made := table.made + 1
  sorted := by
    have sorted := table.sorted
    rw [← table.ahead_append_behind key] at sorted
    obtain ⟨front, back, across⟩ := List.pairwise_append.mp sorted
    refine List.pairwise_append.mpr ⟨front, List.pairwise_cons.mpr ⟨?_, back⟩, ?_⟩
    · intro e member
      cases place : table.behind key with
      | nil => rw [place] at member; cases member
      | cons d rest =>
        rw [place] at member
        rcases List.mem_cons.mp member with rfl | later
        · have notGt := head_behind place
          have notEq := absent e (by
            rw [← table.ahead_append_behind key, place]
            simp)
          cases compared : cmp key e.key with
          | lt => rfl
          | eq => exact absurd compared notEq
          | gt => exact absurd compared notGt
        · exact lt_of_mem_behind place later
    · intro e member d inside
      rcases List.mem_cons.mp inside with rfl | later
      · exact OrientedCmp.lt_of_gt (gt_of_mem_ahead member)
      · exact across e member d later
  nodup := by
    have nodup := table.nodup
    have fresh : table.made ∉ table.entries.map (·.elem) := by
      intro member
      obtain ⟨e, inside, same⟩ := List.mem_map.mp member
      exact Nat.lt_irrefl _ (same ▸ table.older e inside)
    rw [← table.ahead_append_behind key, List.map_append] at nodup fresh
    rw [List.map_append, List.map_cons]
    exact List.nodup_middle.mpr (List.nodup_cons.mpr ⟨fresh, nodup⟩)
  older := by
    intro e member
    have : e ∈ table.entries ∨ e = ⟨table.made, key, value⟩ := by
      rw [← table.ahead_append_behind key]
      simp only [List.mem_append, List.mem_cons] at member ⊢
      tauto
    rcases this with old | rfl
    · exact (table.older e old).trans (Nat.lt_succ_self _)
    · exact Nat.lt_succ_self _

def erase (table : Table cmp Value) (elem : Nat) : Table cmp Value where
  entries := table.entries.filter (·.elem ≠ elem)
  made := table.made
  sorted := table.sorted.filter _
  nodup := table.nodup.sublist (List.filter_sublist.map _)
  older := fun e member => table.older e (List.mem_of_mem_filter member)

/-! ### The operations -/

/-- The entry for the key. -/
def find (table : Table cmp Value) (key : Key) : Option (Entry Key Value) :=
  table.entries.find? fun e => cmp key e.key = .eq

def set [TransCmp cmp] (table : Table cmp Value) (key : Key) (value : Value) :
    Table cmp Value × Nat :=
  match found : table.find key with
  | some e => (table.setValue e.elem value, e.elem)
  | none => (table.insert key value (by simpa [find] using found), table.made)

/-- The first entry, from a start on, whose key is not less. -/
def findNext (table : Table cmp Value) (start : Option Nat) (key : Key) : Option Nat :=
  ((start.elim table.entries fun s => table.entries.dropWhile (·.elem ≠ s)).find?
    fun e => cmp key e.key ≠ .gt).map (·.elem)

/-- The entry behind an element. -/
def next (table : Table cmp Value) (elem : Nat) : Option Nat :=
  (table.elems.dropWhile (· ≠ elem)).tail.head?

/-- The one in front of it. -/
def prev (table : Table cmp Value) (elem : Nat) : Option Nat :=
  if elem ∈ table.elems then (table.elems.takeWhile (· ≠ elem)).getLast? else none

/-- What the map has for a key. -/
def lookup (table : Table cmp Value) (key : Key) : Option Value :=
  (table.find key).map (·.value)

theorem find_of_eq [TransCmp cmp] {e : Entry Key Value} {rest : List (Entry Key Value)}
    (place : table.behind key = e :: rest) (same : cmp key e.key = .eq) :
    table.find key = some e := by
  have unseen : (table.ahead key).find? (fun d => cmp key d.key = .eq) = none := by
    refine List.find?_eq_none.mpr fun d member => ?_
    rw [gt_of_mem_ahead member]
    decide
  rw [find, ← table.ahead_append_behind key, List.find?_append, unseen, Option.none_or, place,
    List.find?_cons, same]
  rfl

theorem find_eq_none [TransCmp cmp]
    (other : ∀ e rest, table.behind key = e :: rest → cmp key e.key ≠ .eq) :
    table.find key = none := by
  rw [find, ← table.ahead_append_behind key, List.find?_eq_none]
  intro d member
  rcases List.mem_append.mp member with before | after
  · rw [gt_of_mem_ahead before]
    decide
  · cases place : table.behind key with
    | nil => rw [place] at after; cases after
    | cons e rest =>
      rw [place] at after
      rcases List.mem_cons.mp after with rfl | later
      · simpa using other d rest place
      · rw [lt_of_mem_behind place later]
        decide

theorem mem_ahead_or_behind {e : Entry Key Value} :
    e ∈ table.entries ↔ e ∈ table.ahead key ∨ e ∈ table.behind key := by
  rw [← table.ahead_append_behind key, List.mem_append]

theorem notGt_of_mem_behind [TransCmp cmp] {e : Entry Key Value} (member : e ∈ table.behind key) :
    cmp key e.key ≠ .gt := by
  cases place : table.behind key with
  | nil => rw [place] at member; cases member
  | cons d rest =>
    rw [place] at member
    rcases List.mem_cons.mp member with rfl | later
    · exact head_behind place
    · rw [lt_of_mem_behind place later]
      decide

/-- The first one of these, if the others have lesser keys. -/
theorem find_notGt {front : List (Entry Key Value)} (less : ∀ e ∈ front, cmp key e.key = .gt) :
    (front ++ table.behind key).find? (fun e => cmp key e.key ≠ .gt) = (table.behind key).head? := by
  have skip : front.find? (fun e => cmp key e.key ≠ .gt) = none :=
    List.find?_eq_none.mpr fun e member => by simp [less e member]
  rw [List.find?_append, skip, Option.none_or]
  cases place : table.behind key with
  | nil => rfl
  | cons e rest =>
    have notGt := head_behind place
    rw [List.find?_cons_of_pos (by simpa using notGt), List.head?_cons]

theorem findNext_none : table.findNext none key = ((table.behind key).map (·.elem)).head? := by
  rw [findNext, Option.elim_none, ← table.ahead_append_behind key,
    find_notGt fun e member => gt_of_mem_ahead member, List.head?_map]

/-- What is there from an element on. -/
theorem dropWhile_entries {e : Entry Key Value} {front back : List (Entry Key Value)}
    (place : table.entries = front ++ e :: back) :
    table.entries.dropWhile (·.elem ≠ e.elem) = e :: back := by
  have nodup := table.nodup
  rw [place, List.map_append, List.map_cons] at nodup
  have apart : ∀ d ∈ front, (decide (d.elem ≠ e.elem)) = true := by
    intro d member
    rw [decide_eq_true_iff]
    exact (List.nodup_append.mp nodup).2.2 d.elem (List.mem_map_of_mem member) e.elem (by simp)
  rw [place, List.dropWhile_append_of_pos apart, List.dropWhile_cons_of_neg (by simp)]

theorem findNext_of_notGt {e : Entry Key Value} (member : e ∈ table.entries)
    (notGt : cmp key e.key ≠ .gt) : table.findNext (some e.elem) key = some e.elem := by
  obtain ⟨front, back, place⟩ := List.append_of_mem member
  rw [findNext, Option.elim_some, dropWhile_entries place,
    List.find?_cons_of_pos (by simpa using notGt), Option.map_some]

theorem findNext_of_split {e : Entry Key Value} {front back : List (Entry Key Value)}
    (place : table.ahead key = front ++ e :: back) :
    table.findNext (some e.elem) key = ((table.behind key).map (·.elem)).head? := by
  have whole : table.entries = front ++ e :: (back ++ table.behind key) := by
    rw [← table.ahead_append_behind key, place, List.append_assoc, List.cons_append]
  have less : ∀ d ∈ e :: back, cmp key d.key = .gt := fun d member =>
    gt_of_mem_ahead (place ▸ List.mem_append_right _ member)
  rw [findNext, Option.elim_some, dropWhile_entries whole, ← List.cons_append, find_notGt less,
    List.head?_map]

theorem elems_eq (table : Table cmp Value) (key : Key) :
    table.elems = (table.ahead key).map (·.elem) ++ (table.behind key).map (·.elem) := by
  rw [elems, ← List.map_append, ahead_append_behind]

theorem elems_insert [TransCmp cmp] {value : Value}
    (absent : ∀ e ∈ table.entries, cmp key e.key ≠ .eq) :
    (table.insert key value absent).elems = (table.ahead key).map (·.elem) ++
      table.made :: (table.behind key).map (·.elem) := by
  rw [elems, insert, List.map_append, List.map_cons]

theorem mem_insert [TransCmp cmp] {value : Value} {e : Entry Key Value}
    {absent : ∀ e ∈ table.entries, cmp key e.key ≠ .eq} :
    e ∈ (table.insert key value absent).entries ↔ e = ⟨table.made, key, value⟩ ∨ e ∈ table.entries := by
  have old : e ∈ table.entries ↔ e ∈ table.ahead key ∨ e ∈ table.behind key := mem_ahead_or_behind
  show e ∈ table.ahead key ++ ⟨table.made, key, value⟩ :: table.behind key ↔ _
  rw [old, List.mem_append, List.mem_cons]
  tauto

theorem set_of_find [TransCmp cmp] {e : Entry Key Value} (value : Value)
    (found : table.find key = some e) :
    table.set key value = (table.setValue e.elem value, e.elem) := by
  rw [set]
  split
  · rename_i d other
    cases other.symm.trans found
    rfl
  · rename_i none
    cases none.symm.trans found

theorem set_of_absent [TransCmp cmp] (value : Value) (absent : table.find key = none) :
    ∃ apart, table.set key value = (table.insert key value apart, table.made) := by
  rw [set]
  split
  · rename_i d other
    cases other.symm.trans absent
  · exact ⟨by simpa [find] using absent, rfl⟩

@[simp] theorem elems_setValue (elem : Nat) (value : Value) :
    (table.setValue elem value).elems = table.elems := by
  rw [elems, elems, setValue, List.map_map]
  refine List.map_congr_left fun e _ => ?_
  rw [Function.comp_apply]
  split <;> rfl

theorem find_eq_head [TransCmp cmp] : table.find key =
    (table.behind key).head?.filter fun e => cmp key e.key = .eq := by
  cases place : table.behind key with
  | nil => exact find_eq_none fun e rest other => by cases place.symm.trans other
  | cons e rest =>
    rw [List.head?_cons, Option.filter_some]
    by_cases same : cmp key e.key = .eq
    · rw [find_of_eq place same, if_pos (decide_eq_true same)]
    · rw [if_neg (by simpa using same)]
      refine find_eq_none fun d rest' other => ?_
      obtain ⟨rfl, rfl⟩ := List.cons.inj (place.symm.trans other)
      exact same

theorem elems_erase (elem : Nat) : (table.erase elem).elems = table.elems.filter (· ≠ elem) := by
  rw [elems, elems, erase, List.filter_map]
  rfl

theorem erase_of_not_mem {elem : Nat} (out : elem ∉ table.elems) : table.erase elem = table := by
  refine ext (List.filter_eq_self.mpr fun e member => ?_) rfl
  rw [decide_eq_true_iff]
  rintro rfl
  exact out (List.mem_map_of_mem member)

/-- Keys that compare as equal have the same entry. -/
theorem find_congr [TransCmp cmp] (table : Table cmp Value) {key' : Key}
    (same : cmp key key' = .eq) : table.find key = table.find key' := by
  rw [find, find]
  refine congrArg (fun p => table.entries.find? p) (funext fun e => ?_)
  rw [TransCmp.congr_left same]

theorem eq_of_elem_eq {d e : Entry Key Value} (first : d ∈ table.entries) (second : e ∈ table.entries)
    (same : d.elem = e.elem) : d = e :=
  List.inj_on_of_nodup_map table.nodup first second same

/-- A key that is set has the value, and the other keys have what they had. -/
theorem lookup_set [TransCmp cmp] (table : Table cmp Value) (key : Key) (value : Value)
    (other : Key) : (table.set key value).1.lookup other =
      if cmp other key = .eq then some value else table.lookup other := by
  cases found : table.find key with
  | some e =>
    have member : e ∈ table.entries := List.mem_of_find?_eq_some found
    have compared : cmp key e.key = .eq := by simpa using List.find?_some found
    have through : (table.setValue e.elem value).find other = (table.find other).map
        fun d => if d.elem = e.elem then { d with value } else d := by
      rw [find, find, setValue, List.find?_map]
      refine congrArg _ (congrArg (fun p => table.entries.find? p) (funext fun d => ?_))
      rw [Function.comp_apply]
      split <;> rfl
    rw [set_of_find value found, lookup, through]
    by_cases same : cmp other key = .eq
    · rw [if_pos same, find_congr table same, found, Option.map_some, if_pos rfl]
      rfl
    · rw [if_neg same, lookup]
      cases place : table.find other with
      | none => rfl
      | some d =>
        have inside : d ∈ table.entries := List.mem_of_find?_eq_some place
        have compared' : cmp other d.key = .eq := by simpa using List.find?_some place
        have apart : d.elem ≠ e.elem := by
          intro is
          rw [eq_of_elem_eq inside member is] at compared'
          exact same (TransCmp.eq_trans compared' (OrientedCmp.eq_symm compared))
        rw [Option.map_some, if_neg apart]
  | none =>
    obtain ⟨absent, set⟩ := set_of_absent value found
    rw [set, lookup, find, insert, List.find?_append, List.find?_cons]
    by_cases same : cmp other key = .eq
    · have none : (table.ahead key).find? (fun e => cmp other e.key = .eq) = none := by
        refine List.find?_eq_none.mpr fun e member => ?_
        rw [TransCmp.congr_left same, gt_of_mem_ahead member]
        decide
      rw [none, if_pos same, Option.none_or]
      simp only [same, decide_true, Option.map_some]
    · have unequal : decide (cmp other key = .eq) = false := decide_eq_false same
      rw [if_neg same, unequal, lookup, find, ← table.ahead_append_behind key, List.find?_append]

/-! ### Calls -/

/-- The entry of an element. -/
def entry (table : Table cmp Value) (elem : Nat) : Option (Entry Key Value) :=
  table.entries.find? (·.elem = elem)

def element (table : Table cmp Value) (elem : Option Nat) : Answer Key Value :=
  .element (elem.bind table.entry)

def step [TransCmp cmp] (table : Table cmp Value) : Call Key Value → Table cmp Value × Answer Key Value
  | .set _ key value => ((table.set key value).1, (table.set key value).1.element (table.set key value).2)
  | .findNext start key => (table, table.element (table.findNext start key))
  | .get key => (table, .element (table.find key))
  | .getValue key => (table, .value (table.lookup key))
  | .remove key => (((table.find key).map (·.elem)).elim table table.erase, .element (table.find key))
  | .removeElement elem => (table.erase elem, .nothing)
  | .removeFront => (table.elems.head?.elim table table.erase, .element table.entries.head?)
  | .removeBack => (table.elems.getLast?.elim table table.erase, .element table.entries.getLast?)
  | .front => (table, .element table.entries.head?)
  | .back => (table, .element table.entries.getLast?)
  | .len => (table, .number table.entries.length)
  | .next elem => (table, table.element (table.next elem))
  | .prev elem => (table, table.element (table.prev elem))

/-- The start of `FindNext` is an element of the list, if there is one. -/
def Allows (table : Table cmp Value) : Call Key Value → Prop
  | .findNext start _ => ∀ s, start = some s → s ∈ table.elems
  | _ => True

theorem entry_of_mem {e : Entry Key Value} (member : e ∈ table.entries) :
    table.entry e.elem = some e := by
  obtain ⟨front, back, place⟩ := List.append_of_mem member
  have nodup := table.nodup
  rw [place, List.map_append, List.map_cons] at nodup
  refine List.find?_eq_some_iff_append.mpr ⟨by simp, front, back, place, fun d inside => ?_⟩
  have apart := (List.nodup_append.mp nodup).2.2 d.elem (List.mem_map_of_mem inside) e.elem (by simp)
  simpa using apart

theorem next_of_split {front back : List Nat} {elem : Nat} (place : table.elems = front ++ elem :: back) :
    table.next elem = back.head? := by
  have nodup : table.elems.Nodup := table.nodup
  rw [place] at nodup
  have apart : ∀ d ∈ front, decide (d ≠ elem) = true := by
    intro d member
    rw [decide_eq_true_iff]
    exact (List.nodup_append.mp nodup).2.2 d member elem (by simp)
  rw [next, place, List.dropWhile_append_of_pos apart, List.dropWhile_cons_of_neg (by simp),
    List.tail_cons]

theorem prev_of_split {front back : List Nat} {elem : Nat} (place : table.elems = front ++ elem :: back) :
    table.prev elem = front.getLast? := by
  have nodup : table.elems.Nodup := table.nodup
  rw [place] at nodup
  have apart : ∀ d ∈ front, decide (d ≠ elem) = true := by
    intro d member
    rw [decide_eq_true_iff]
    exact (List.nodup_append.mp nodup).2.2 d member elem (by simp)
  rw [prev, if_pos (by simp [place]), place, List.takeWhile_append_of_pos apart,
    List.takeWhile_cons_of_neg (by simp), List.append_nil]

theorem mem_of_findNext {start : Option Nat} {elem : Nat} (found : table.findNext start key = some elem) :
    elem ∈ table.elems := by
  obtain ⟨e, some', rfl⟩ := Option.map_eq_some_iff.mp found
  refine List.mem_map_of_mem ?_
  cases start with
  | none => exact List.mem_of_find?_eq_some some'
  | some s => exact (List.dropWhile_suffix _).subset (List.mem_of_find?_eq_some some')

theorem mem_of_next {elem e : Nat} (found : table.next elem = some e) : e ∈ table.elems :=
  (List.dropWhile_suffix _).subset (List.mem_of_mem_tail (List.mem_of_mem_head? found))

theorem mem_of_prev {elem e : Nat} (found : table.prev elem = some e) : e ∈ table.elems := by
  rw [prev] at found
  split at found
  · exact (List.takeWhile_prefix _).subset (List.mem_of_getLast? found)
  · cases found

theorem set_mem [TransCmp cmp] (table : Table cmp Value) (key : Key) (value : Value) :
    (table.set key value).2 ∈ (table.set key value).1.elems := by
  cases found : table.find key with
  | some e =>
    rw [set_of_find value found, elems_setValue]
    exact List.mem_map_of_mem (List.mem_of_find?_eq_some found)
  | none =>
    obtain ⟨absent, same⟩ := set_of_absent value found
    rw [same, elems_insert]
    simp

end Table

end Frobio.Skiplist
