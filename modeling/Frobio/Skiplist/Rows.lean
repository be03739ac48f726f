/-
This file proves that the links of a skip list are always those of a row of elements: `Set` puts a
new element into the row, and `RemoveElement` takes one out.

`Shaped` is the invariant. `Inserted` and `Removed` say all that changes, and that the row is as it
should be follows from these alone.
-/

import Frobio.Skiplist.Search
import Frobio.Skiplist.Links

namespace Frobio.Skiplist

open Tower

variable {Key Score Value : Type}

namespace SkipList

variable {list : SkipList Key Score Value} {front back row : List Nat} {x i : Nat}

/-! ### Lists -/

/-- The links of the list are those of this row. -/
structure Shaped (list : SkipList Key Score Value) (row : List Nat) : Prop where
  nodup : row.Nodup
  older : ∀ e ∈ row, e < list.made
  length : list.length = row.length
  back : list.back = row.getLast?
  header : list.level none = list.maxLevel
  linked : Linked (below list.level) list.levels row
  backed : Backed list.level list.prev list.prevTopLevel row
  inList : ∀ e, list.inList e = true ↔ e ∈ row
  heights : ∀ e ∈ row, 0 < list.level (some e) ∧ list.level (some e) ≤ list.maxLevel
  /-- What is not in the list has no links. -/
  outside : ∀ e, e ∉ row → list.levels (some e) = [] ∧ list.prev e = none

theorem setPrev_apply (list : SkipList Key Score Value) (next elem : Option Nat) (e : Nat) :
    (list.setPrev next elem).prev e = if next = some e then elem else list.prev e := by
  cases next with
  | none => rfl
  | some d =>
    show Function.update list.prev d elem e = _
    by_cases same : d = e
    · rw [if_pos (congrArg some same), same, Function.update_self]
    · rw [if_neg fun both => same (Option.some.inj both), Function.update_of_ne (Ne.symm same)]

theorem Shaped.length_le (shaped : Shaped list row) : row.length ≤ list.made := by
  have within : ∀ e ∈ row, e ∈ List.range list.made := fun e member =>
    List.mem_range.mpr (shaped.older e member)
  have subperm := (List.subperm_of_subset shaped.nodup within).length_le
  rwa [List.length_range] at subperm

theorem Shaped.made_not_mem (shaped : Shaped list row) : list.made ∉ row := fun member =>
  Nat.lt_irrefl _ (shaped.older _ member)

/-! ### Setting -/

/-- The list has a new element between these, of the level `n`. -/
structure Inserted (list : SkipList Key Score Value) (c : Content Key Score Value)
    (front back : List Nat) (n : Nat) (list' : SkipList Key Score Value) : Prop where
  comparable : list'.comparable = list.comparable
  maxLevel : list'.maxLevel = list.maxLevel
  made : list'.made = list.made + 1
  content : list'.content = Function.update list.content list.made (some c)
  length : list'.length = list.length + 1
  last : list'.back = if back = [] then some list.made else list.back
  inList : list'.inList = Function.update list.inList list.made true
  own : list'.level (some list.made) = n
  others : ∀ g, g ≠ some list.made → list'.level g = list.level g
  linked : Linked (below list'.level) list'.levels (front ++ list.made :: back)
  prev_own : list'.prev list.made = front.getLast?
  prev_others : ∀ e, e ≠ list.made →
    list'.prev e = if back.head? = some e then some list.made else list.prev e
  adjusted : Adjusted list'.level back 0 n (fun _ => some list.made)
    (Function.update list.prevTopLevel list.made (lastAt (below list.level) (n - 1) front))
    list'.prevTopLevel

theorem Shaped.inserted {c : Content Key Score Value} {n : Nat} {list' : SkipList Key Score Value}
    (shaped : Shaped list (front ++ back)) (inserted : Inserted list c front back n list')
    (positive : 0 < n) (within : n ≤ list.maxLevel) : Shaped list' (front ++ list.made :: back) := by
  have fresh := shaped.made_not_mem
  have nodup : (front ++ list.made :: back).Nodup :=
    List.nodup_middle.mpr (List.nodup_cons.mpr ⟨fresh, shaped.nodup⟩)
  have apart : ∀ e ∈ front ++ back, e ≠ list.made := fun e member is => fresh (is ▸ member)
  have level_of : ∀ e, e ≠ list.made → list'.level (some e) = list.level (some e) :=
    fun e other => inserted.others _ fun is => other (Option.some.inj is)
  have split : ∀ e, e ∈ front ++ list.made :: back ↔ e = list.made ∨ e ∈ front ++ back := by
    intro e
    rw [List.mem_append, List.mem_append, List.mem_cons]
    tauto
  have front_made : list.made ∉ front := fun member => fresh (List.mem_append_left _ member)
  have back_made : list.made ∉ back := fun member => fresh (List.mem_append_right _ member)
  have lastOf : lastAt (below list'.level) (n - 1) front = lastAt (below list.level) (n - 1) front :=
    nextAt_congr fun e member => by
      have other := apart e (List.mem_append_left _ (List.mem_reverse.mp member))
      rw [below, below, level_of e other]
  refine ⟨nodup, ?_, ?_, ?_, ?_, inserted.linked, ?_, ?_, ?_, ?_⟩
  · intro e member
    rw [inserted.made]
    rcases (split e).mp member with rfl | old
    · exact Nat.lt_succ_self _
    · exact (shaped.older e old).trans (Nat.lt_succ_self _)
  · have := shaped.length
    rw [inserted.length]
    simp only [List.length_append, List.length_cons] at this ⊢
    omega
  · rw [inserted.last, shaped.back]
    cases back with
    | nil => rw [if_pos rfl, List.getLast?_concat]
    | cons e back =>
      rw [if_neg (List.cons_ne_nil e back), List.getLast?_append, List.getLast?_append,
        List.getLast?_cons_cons]
  · rw [inserted.others none (by simp), inserted.maxLevel]
    exact shaped.header
  · have backed : Backed list'.level list.prev list.prevTopLevel (front ++ back) :=
      shaped.backed.congr fun e member => ⟨level_of e (apart e member), rfl, rfl⟩
    refine backed.insert nodup (fun e member => ?_) ⟨inserted.prev_own, ?_⟩
      (fun e member => inserted.prev_others e (apart e member)) (inserted.own ▸ inserted.adjusted)
      fun e member => Function.update_of_ne (apart e member) _ _
    · have inside := List.mem_append_right front member
      rw [level_of e (apart e inside)]
      exact (shaped.heights e inside).1
    · rw [inserted.adjusted.others list.made fun both => ?_, Function.update_self, inserted.own,
        lastOf]
      obtain ⟨before, after, is, -⟩ := both.1
      exact back_made (is ▸ by simp)
  · intro e
    rw [inserted.inList, split]
    by_cases is : e = list.made
    · rw [is, Function.update_self]
      simp
    · rw [Function.update_of_ne is, shaped.inList]
      simp [is]
  · intro e member
    rw [inserted.maxLevel]
    rcases (split e).mp member with rfl | old
    · rw [inserted.own]
      exact ⟨positive, within⟩
    · rw [level_of e (apart e old)]
      exact shaped.heights e old
  · intro e out
    rw [split, not_or] at out
    obtain ⟨empty, free⟩ := shaped.outside e out.2
    have not_head : back.head? ≠ some e := fun is =>
      out.2 (List.mem_append_right _ (List.mem_of_mem_head? is))
    constructor
    · refine List.eq_nil_of_length_eq_zero ?_
      show list'.level (some e) = 0
      rw [level_of e out.1, level, empty]
      rfl
    · rw [inserted.prev_others e out.1, if_neg not_head, free]

section

variable {n : Nat} {score : Score} {key : Key} {value : Value}

/-- The levels of the other elements stay as they are. -/
theorem levels_newElement {g : Option Nat} (apart : g ≠ some list.made) :
    (list.newElement n score key value).levels g = list.levels g := Function.update_of_ne apart _ _

theorem levels_newElement_self :
    (list.newElement n score key value).levels (some list.made) = List.replicate n none :=
  Function.update_self _ _ _

theorem level_newElement {g : Option Nat} (apart : g ≠ some list.made) :
    (list.newElement n score key value).level g = list.level g := by
  rw [level, level, levels_newElement apart]

theorem level_newElement_self : (list.newElement n score key value).level (some list.made) = n := by
  rw [level, levels_newElement_self, List.length_replicate]

/-- With a new element that is linked with nothing. -/
theorem Shaped.newElement (shaped : Shaped list (front ++ back)) :
    Linked (partly (list.newElement n score key value).level list.made 0 0)
      (list.newElement n score key value).levels (front ++ list.made :: back) := by
  have fresh := shaped.made_not_mem
  refine Linked.admit (shaped.linked.congr fun g inside => ?_) fun i => by
    rw [partly_self]
    simp
  have apart : g ≠ some list.made := fun same => fresh (inside _ same)
  refine ⟨?_, levels_newElement apart⟩
  funext i
  rw [partly_of_ne apart, below, below, level_newElement apart]

/-- The element is linked back before it is linked with. -/
def linkedBack (list : SkipList Key Score Value) (n : Nat) (score : Score) (key : Key) (value : Value)
    (front : List Nat) : SkipList Key Score Value :=
  { list.newElement n score key value with
    prev := Function.update (list.newElement n score key value).prev list.made
      (lastAt (below list.level) 0 front)
    prevTopLevel := Function.update (list.newElement n score key value).prevTopLevel list.made
      (lastAt (below list.level) (n - 1) front) }

/-- The links of a new element. -/
theorem Shaped.linkNew (shaped : Shaped list (front ++ back)) (score : Score) (key : Key)
    (value : Value) {prevElemHeaders : List (Option Nat)} (within : n ≤ list.maxLevel)
    (prevs : ∀ i, i < list.maxLevel →
      prevElemHeaders[i]? = some (lastAt (below list.level) i front)) :
    ∃ levels, Loop.forLoop (linkLevel prevElemHeaders list.made) 0 n
        (list.linkedBack n score key value front) =
          some { list.linkedBack n score key value front with levels } ∧
      (∀ g, (levels g).length = (list.newElement n score key value).level g) ∧
      Linked (below (list.newElement n score key value).level) levels
        (front ++ list.made :: back) := by
  have fresh := shaped.made_not_mem
  have nodup : (front ++ list.made :: back).Nodup :=
    List.nodup_middle.mpr (List.nodup_cons.mpr ⟨fresh, shaped.nodup⟩)
  obtain ⟨base, base_eq⟩ : ∃ base, base = list.linkedBack n score key value front := ⟨_, rfl⟩
  have base_level : base.level = (list.newElement n score key value).level := by rw [base_eq]; rfl
  have base_levels : base.levels = (list.newElement n score key value).levels := by rw [base_eq]; rfl
  have own : base.level (some list.made) = n := by rw [base_level, level_newElement_self]
  have top : base.level none = list.maxLevel := by
    rw [base_level, level_newElement (by simp)]
    exact shaped.header
  have admitted : Linked (partly base.level list.made 0 0) base.levels
      (front ++ list.made :: back) := by
    rw [base_level, base_levels]
    exact shaped.newElement
  have headers : ∀ i, i < base.level (some list.made) →
      prevElemHeaders[i]? = some (lastAt (below base.level) i front) := by
    intro i less
    rw [own] at less
    rw [prevs i (less.trans_le within), base_level]
    refine congrArg some (nextAt_congr fun e member => ?_)
    rw [below, below, level_newElement]
    intro is
    exact fresh (List.mem_append_left _ (List.mem_reverse.mp (Option.some.inj is ▸ member)))
  obtain ⟨levels, looped, same, linked⟩ :=
    linkLoop_spec admitted nodup (by rw [own, top]; exact within) headers
  rw [own] at looped
  rw [← base_eq, ← base_level]
  exact ⟨levels, looped, same, linked⟩

theorem Shaped.insert (shaped : Shaped list (front ++ back)) (score : Score) (key : Key)
    (value : Value) {prevElemHeaders : List (Option Nat)} (positive : 0 < n) (within : n ≤ list.maxLevel)
    (prevs : ∀ i, i < list.maxLevel →
      prevElemHeaders[i]? = some (lastAt (below list.level) i front)) : ∃ list',
    list.insert n score key value prevElemHeaders = some (list', list.made) ∧
      Inserted list ⟨key, score, value⟩ front back n list' := by
  have fresh := shaped.made_not_mem
  have not_head : back.head? ≠ some list.made := fun is =>
    fresh (List.mem_append_right _ (List.mem_of_mem_head? is))
  have others : ∀ g, g ≠ some list.made →
      (list.newElement n score key value).level g = list.level g := fun _ => level_newElement
  obtain ⟨levels, looped, same, linked⟩ := shaped.linkNew score key value within prevs
  have head : nextAt (below (list.newElement n score key value).level) 0 back = back.head? :=
    nextAt_zero fun e member => by
      have inside := List.mem_append_right front member
      rw [others _ fun is => fresh (Option.some.inj is ▸ inside)]
      exact (shaped.heights e inside).1
  have links : ∀ i, i < n → (levels (some list.made))[i]? =
      some (nextAt (below (list.newElement n score key value).level) i back) := fun i less =>
    linked.elem (below_iff.mpr (level_newElement_self.symm ▸ less))
  obtain ⟨linkedTo, linkedTo_eq⟩ : ∃ linkedTo : SkipList Key Score Value, linkedTo =
      { list.linkedBack n score key value front with levels }.setPrev back.head?
        (some list.made) := ⟨_, rfl⟩
  have level_eq : linkedTo.level = (list.newElement n score key value).level := by
    funext g
    rw [linkedTo_eq]
    exact same g
  have links' : ∀ i, i < n →
      (linkedTo.levels (some list.made))[i]? = some (nextAt (below linkedTo.level) i back) := by
    intro i less
    rw [level_eq, linkedTo_eq]
    exact links i less
  have enough : n + 1 ≤ 0 + (n + 1) := by omega
  obtain ⟨prevTopLevel, adjusts, adjusted⟩ := adjustNext_spec links' enough (Nat.succ_pos n)
  have first : lastAt (below list.level) 0 front = front.getLast? :=
    lastAt_zero fun e member => (shaped.heights e (List.mem_append_left _ member)).1
  refine ⟨{ linkedTo with
      prevTopLevel := prevTopLevel
      back := if back.head? = none then some list.made else linkedTo.back
      length := linkedTo.length + 1 }, ?_, ?_⟩
  · rw [SkipList.insert]
    simp only [prevs 0 (positive.trans_le within), prevs (n - 1) (by omega), Option.bind_eq_bind,
      Option.bind_some]
    rw [← linkedBack, looped]
    simp only [Option.bind_some]
    rw [links 0 positive, head]
    simp only [Option.bind_some]
    rw [← linkedTo_eq, adjusts]
    rfl
  · have prev_of : ∀ e, linkedTo.prev e = if back.head? = some e then some list.made
        else (list.linkedBack n score key value front).prev e := by
      intro e
      rw [linkedTo_eq, setPrev_apply]
    have base_prev : (list.linkedBack n score key value front).prev =
        Function.update (Function.update list.prev list.made none) list.made
          (lastAt (below list.level) 0 front) := rfl
    have still : linkedTo.prevTopLevel = Function.update
        (Function.update list.prevTopLevel list.made none) list.made
          (lastAt (below list.level) (n - 1) front) := by rw [linkedTo_eq]; rfl
    rw [still, Function.update_idem] at adjusted
    have parts : linkedTo.comparable = list.comparable ∧ linkedTo.maxLevel = list.maxLevel ∧
        linkedTo.made = list.made + 1 ∧
        linkedTo.content = Function.update list.content list.made (some ⟨key, score, value⟩) ∧
        linkedTo.length = list.length ∧ linkedTo.back = list.back ∧
        linkedTo.inList = Function.update list.inList list.made true := by
      rw [linkedTo_eq]
      exact ⟨rfl, rfl, rfl, rfl, rfl, rfl, rfl⟩
    obtain ⟨comparable, maxLevel, made, content, length, last, inList⟩ := parts
    refine ⟨comparable, maxLevel, made, content, congrArg (· + 1) length, ?_, inList, ?_, ?_, ?_,
      ?_, ?_, adjusted⟩
    · simp only [List.head?_eq_none_iff]
      rw [last]
    · exact (congrFun level_eq _).trans level_newElement_self
    · exact fun g other => (congrFun level_eq g).trans (others g other)
    · show Linked (below linkedTo.level) linkedTo.levels _
      rw [level_eq, linkedTo_eq]
      exact linked
    · show linkedTo.prev list.made = _
      rw [prev_of, if_neg not_head, base_prev, Function.update_self, first]
    · intro e other
      show linkedTo.prev e = _
      rw [prev_of, base_prev, Function.update_of_ne other, Function.update_of_ne other]

theorem Shaped.insertFirst (shaped : Shaped list []) (score : Score) (key : Key) (value : Value)
    (positive : 0 < n) (within : n ≤ list.maxLevel) : ∃ list',
    list.insertFirst n score key value = some (list', list.made) ∧
      Inserted list ⟨key, score, value⟩ [] [] n list' := by
  obtain ⟨base, base_eq⟩ : ∃ base, base = list.newElement n score key value := ⟨_, rfl⟩
  have alone : Shaped list ([] ++ []) := shaped
  have admitted : Linked (partly base.level list.made 0 0) base.levels [list.made] :=
    base_eq ▸ alone.newElement
  have others : ∀ g, g ≠ some list.made → base.level g = list.level g := by
    intro g other
    rw [base_eq, level_newElement other]
  have own : base.levels (some list.made) = List.replicate n none := by
    rw [base_eq, levels_newElement_self]
  have height : base.level (some list.made) = n := by rw [level, own, List.length_replicate]
  have top : base.level none = list.maxLevel := (others none (by simp)).trans shaped.header
  obtain ⟨final, looped, levels, rfl, same, single, linked⟩ := Loop.forLoop_invariant
    (fun j (state : SkipList Key Score Value) => ∃ levels, state = { base with levels } ∧
      (∀ g, (levels g).length = base.level g) ∧
      levels (some list.made) = List.replicate n none ∧
      Linked (partly base.level list.made 0 j) levels [list.made])
    (Nat.zero_le n)
    (fun j state _ less (kept : ∃ levels, state = { base with levels } ∧
        (∀ g, (levels g).length = base.level g) ∧
        levels (some list.made) = List.replicate n none ∧
        Linked (partly base.level list.made 0 j) levels [list.made]) =>
      show ∃ next, (fun (list' : SkipList Key Score Value) i =>
          list'.setLevel none i (some list.made)) state j = some next ∧ _ by
        obtain ⟨levels, rfl, same, single, linked⟩ := kept
        have inside : j < (levels none).length := by
          rw [same, top]
          exact less.trans_le within
        have alone : Linked (partly base.level list.made 0 j) levels ([] ++ list.made :: []) := linked
        have raised : Linked (partly base.level list.made 0 (j + 1))
            (relink (relink levels (some list.made) j none) none j (some list.made)) [list.made] :=
          alone.raise (List.nodup_singleton _) (by rw [single, List.length_replicate]; exact less)
            inside
        have still : relink levels (some list.made) j none = levels :=
          relink_same (by rw [single, List.getElem?_replicate, if_pos less])
        rw [still] at raised
        refine ⟨_, setLevel_eq inside, _, rfl, fun g => ?_, ?_, raised⟩
        · rw [length_relink, same]
        · rw [relink, Function.update_of_ne (Option.some_ne_none _)]
          exact single)
    ⟨base.levels, rfl, fun _ => rfl, own, admitted⟩
  rw [← height, partly_height] at linked
  have level_eq : SkipList.level { base with levels } = base.level := funext same
  refine ⟨{ base with levels, back := some list.made, length := base.length + 1 }, ?_, ?_⟩
  · rw [SkipList.insertFirst, ← base_eq, looped]
    rfl
  · have parts : base.comparable = list.comparable ∧ base.maxLevel = list.maxLevel ∧
        base.made = list.made + 1 ∧
        base.content = Function.update list.content list.made (some ⟨key, score, value⟩) ∧
        base.length = list.length ∧ base.inList = Function.update list.inList list.made true ∧
        base.prev = Function.update list.prev list.made none ∧
        base.prevTopLevel = Function.update list.prevTopLevel list.made none := by
      rw [base_eq]
      exact ⟨rfl, rfl, rfl, rfl, rfl, rfl, rfl, rfl⟩
    obtain ⟨comparable, maxLevel, made, content, length, inList, prev, prevTopLevel⟩ := parts
    refine ⟨comparable, maxLevel, made, content, congrArg (· + 1) length, (if_pos rfl).symm, inList,
      (same _).trans height, fun g other => (same g).trans (others g other), ?_, ?_, ?_, ?_⟩
    · show Linked (below (SkipList.level { base with levels })) levels _
      rw [level_eq]
      exact linked
    · show base.prev list.made = none
      rw [prev, Function.update_self]
    · intro e other
      show base.prev e = _
      rw [prev, Function.update_of_ne other, if_neg]
      simp
    · refine ⟨?_, fun e _ => ?_⟩
      · rintro e ⟨before, after, is, -⟩
        simp at is
      · show base.prevTopLevel e = _
        rw [prevTopLevel]
        rfl

end

/-! ### Removing -/

/-- An element between these is no more in the list. -/
structure Removed (list : SkipList Key Score Value) (front : List Nat) (x : Nat) (back : List Nat)
    (list' : SkipList Key Score Value) : Prop where
  comparable : list'.comparable = list.comparable
  maxLevel : list'.maxLevel = list.maxLevel
  made : list'.made = list.made
  content : list'.content = list.content
  length : list'.length = list.length - 1
  last : list'.back = if back = [] then front.getLast? else list.back
  inList : list'.inList = Function.update list.inList x false
  own : list'.levels (some x) = []
  others : ∀ g, g ≠ some x → list'.level g = list.level g
  linked : Linked (below list'.level) list'.levels (front ++ back)
  prev_own : list'.prev x = none
  prev_others : ∀ e, e ≠ x →
    list'.prev e = if back.head? = some e then front.getLast? else list.prev e
  adjusted : ∃ prevTopLevel, (∀ e, e ≠ x → list'.prevTopLevel e = prevTopLevel e) ∧
    Adjusted list.level back 0 (list.level (some x))
      (fun h => lastAt (below list.level) (h - 1) front) list.prevTopLevel prevTopLevel

theorem Shaped.removed {list' : SkipList Key Score Value} (shaped : Shaped list (front ++ x :: back))
    (removed : Removed list front x back list') : Shaped list' (front ++ back) := by
  have nodup := shaped.nodup
  obtain ⟨x_out, rest⟩ := List.nodup_cons.mp (List.nodup_middle.mp nodup)
  have apart : ∀ e ∈ front ++ back, e ≠ x := fun e member is => x_out (is ▸ member)
  have level_of : ∀ e, e ≠ x → list'.level (some e) = list.level (some e) :=
    fun e other => removed.others _ fun is => other (Option.some.inj is)
  have split : ∀ e, e ∈ front ++ x :: back ↔ e = x ∨ e ∈ front ++ back := by
    intro e
    rw [List.mem_append, List.mem_append, List.mem_cons]
    tauto
  have old : ∀ e ∈ front ++ back, e ∈ front ++ x :: back := fun e member =>
    (split e).mpr (.inr member)
  refine ⟨rest, ?_, ?_, ?_, ?_, removed.linked, ?_, ?_, ?_, ?_⟩
  · intro e member
    rw [removed.made]
    exact shaped.older e (old e member)
  · have := shaped.length
    rw [removed.length]
    simp only [List.length_append, List.length_cons] at this ⊢
    omega
  · rw [removed.last, shaped.back]
    cases back with
    | nil => rw [if_pos rfl, List.append_nil]
    | cons e back =>
      rw [if_neg (List.cons_ne_nil e back), List.getLast?_append, List.getLast?_append,
        List.getLast?_cons_cons]
  · rw [removed.others none (by simp), removed.maxLevel]
    exact shaped.header
  · obtain ⟨prevTopLevel, same, adjusted⟩ := removed.adjusted
    have backed : Backed list.level list'.prev prevTopLevel (front ++ back) :=
      shaped.backed.remove nodup (fun e member => (shaped.heights e (by simp [member])).1)
        (fun e member => removed.prev_others e (apart e member)) adjusted
    exact backed.congr fun e member =>
      ⟨level_of e (apart e member), rfl, same e (apart e member)⟩
  · intro e
    rw [removed.inList]
    by_cases is : e = x
    · rw [is, Function.update_self]
      simpa using x_out
    · rw [Function.update_of_ne is, shaped.inList, split]
      simp [is]
  · intro e member
    rw [level_of e (apart e member), removed.maxLevel]
    exact shaped.heights e (old e member)
  · intro e out
    by_cases is : e = x
    · rw [is]
      exact ⟨removed.own, removed.prev_own⟩
    · obtain ⟨empty, free⟩ := shaped.outside e fun member =>
        ((split e).mp member).elim is out
      have not_head : back.head? ≠ some e := fun same =>
        out (List.mem_append_right _ (List.mem_of_mem_head? same))
      constructor
      · refine List.eq_nil_of_length_eq_zero ?_
        show list'.level (some e) = 0
        rw [level_of e is, level, empty]
        rfl
      · rw [removed.prev_others e is, if_neg not_head, free]

/-- The next elements that are not higher, and only these, have the element as their link back. -/
theorem Shaped.prevTopLevel_iff (shaped : Shaped list (front ++ x :: back)) {e : Nat}
    (record : Record list.level back e) :
    list.prevTopLevel e = some x ↔ list.level (some e) ≤ list.level (some x) := by
  obtain ⟨mid, rest, rfl, lower⟩ := record
  have positive := (shaped.heights e (by simp)).1
  have x_front : x ∉ front := fun member =>
    (List.nodup_append.mp shaped.nodup).2.2 x member x List.mem_cons_self rfl
  have unseen : ∀ d ∈ mid, below list.level (some d) (list.level (some e) - 1) = false := by
    intro d member
    have := lower d member
    rw [below_eq_false]
    omega
  have place : front ++ x :: mid = front ++ [x] ++ mid := by simp
  rw [(shaped.backed (front ++ x :: mid) e rest (by simp)).2, place,
    lastAt_append_of_unseen unseen, lastAt_concat]
  by_cases low : list.level (some e) ≤ list.level (some x)
  · have sees : below list.level (some x) (list.level (some e) - 1) = true := by
      rw [below_iff]
      omega
    rw [if_pos sees]
    exact ⟨fun _ => low, fun _ => rfl⟩
  · have unseen : ¬below list.level (some x) (list.level (some e) - 1) = true := by
      rw [below_iff]
      omega
    rw [if_neg unseen]
    exact ⟨fun same => (lastAt_ne x_front same).elim, fun within => (low within).elim⟩

/-- What is found of the previous elements. -/
theorem Shaped.findPrevs (shaped : Shaped list (front ++ x :: back)) : ∃ prevElems,
    list.findPrevs (list.level (some x)) (list.level (some x) + 1) (list.prev x) [] =
        some prevElems ∧
      ∀ i, i < list.level (some x) → prevElems[i]? = lastAt (below list.level) i front := by
  have enough : front.length ≤ list.made := by
    have := shaped.length_le
    rw [List.length_append] at this
    omega
  have first : list.prev x = lastAt (below list.level) 0 front := by
    rw [(shaped.backed front x back rfl).1, lastAt_zero]
    exact fun e member => (shaped.heights e (List.mem_append_left _ member)).1
  have room : list.level (some x) < ([] : List Nat).length + (list.level (some x) + 1) := by simp
  exact findPrevs_spec shaped.backed enough room (Nat.zero_le _) (fun _ => first)
    fun i less => absurd less (Nat.not_lt_zero i)

/-- Only the last element is the back of the list. -/
theorem Shaped.back_eq_iff (shaped : Shaped list (front ++ x :: back)) :
    list.back = some x ↔ back = [] := by
  rw [shaped.back]
  rcases List.eq_nil_or_concat' back with rfl | ⟨rest, e, rfl⟩
  · simp
  · have place : front ++ x :: (rest ++ [e]) = front ++ x :: rest ++ [e] := by simp
    have apart : e ≠ x := by
      rintro rfl
      exact (List.nodup_cons.mp (List.nodup_middle.mp shaped.nodup)).1 (by simp)
    rw [place, List.getLast?_concat]
    simp [apart]

theorem Shaped.removeElement (shaped : Shaped list (front ++ x :: back)) : ∃ list',
    list.removeElement x = some list' ∧ Removed list front x back list' := by
  have member : x ∈ front ++ x :: back := by simp
  obtain ⟨positive, tall⟩ := shaped.heights x member
  have inList : list.inList x = true := (shaped.inList x).mpr member
  have nodup := shaped.nodup
  obtain ⟨x_out, -⟩ := List.nodup_cons.mp (List.nodup_middle.mp nodup)
  obtain ⟨prev_x, -⟩ := shaped.backed front x back rfl
  have head : nextAt (below list.level) 0 back = back.head? :=
    nextAt_zero fun e inside => (shaped.heights e (by simp [inside])).1
  obtain ⟨prevElems, finds, prevs⟩ := shaped.findPrevs
  obtain ⟨levels, looped, same, own, linked⟩ := unlinkLoop_spec shaped.linked nodup
    (shaped.header ▸ tall) prevs
  have links : ∀ i, i < list.level (some x) →
      (levels (some x))[i]? = some (nextAt (below list.level) i back) := fun i less =>
    own ▸ shaped.linked.elem (below_iff.mpr less)
  obtain ⟨unlinked, unlinked_eq⟩ : ∃ unlinked : SkipList Key Score Value,
      unlinked = { list with levels := levels }.setPrev back.head? (list.prev x) := ⟨_, rfl⟩
  have level_eq : unlinked.level = list.level := by
    funext g
    rw [unlinked_eq]
    exact same g
  have parts : unlinked.comparable = list.comparable ∧ unlinked.maxLevel = list.maxLevel ∧
      unlinked.made = list.made ∧ unlinked.content = list.content ∧
      unlinked.length = list.length ∧ unlinked.back = list.back ∧
      unlinked.inList = list.inList ∧ unlinked.levels = levels ∧
      unlinked.prevTopLevel = list.prevTopLevel := by
    rw [unlinked_eq]
    exact ⟨rfl, rfl, rfl, rfl, rfl, rfl, rfl, rfl, rfl⟩
  obtain ⟨comparable, maxLevel, made, content, length, last, inList_eq, levels_eq, top⟩ := parts
  have links' : ∀ i, i < list.level (some x) →
      (unlinked.levels (some x))[i]? = some (nextAt (below unlinked.level) i back) := by
    rw [level_eq, levels_eq]
    exact links
  have prevs' : ∀ i, i < list.level (some x) →
      prevElems[i]? = lastAt (below unlinked.level) i front := by
    rw [level_eq]
    exact prevs
  have theirs : ∀ e, Record unlinked.level back e → 0 < unlinked.level (some e) →
      (unlinked.prevTopLevel e = some x ↔ unlinked.level (some e) ≤ list.level (some x)) := by
    rw [level_eq, top]
    exact fun e record _ => shaped.prevTopLevel_iff record
  have enough : list.level (some x) + 1 ≤ 0 + (list.level (some x) + 1) := by omega
  obtain ⟨prevTopLevel, releases, adjusted⟩ := releaseNext_spec links' prevs' theirs
    enough (Nat.succ_pos _)
  rw [level_eq, top] at adjusted
  have prev_of : ∀ e, unlinked.prev e =
      if back.head? = some e then front.getLast? else list.prev e := by
    intro e
    rw [unlinked_eq, setPrev_apply, prev_x]
  have prev_self : unlinked.prev x = front.getLast? := by
    rw [prev_of, if_neg, prev_x]
    exact fun is => x_out (List.mem_append_right _ (List.mem_of_mem_head? is))
  obtain ⟨final, final_eq⟩ : ∃ final : SkipList Key Score Value, final =
      { unlinked with
        prevTopLevel := prevTopLevel
        back := if list.back = some x then front.getLast? else list.back
        length := unlinked.length - 1 } := ⟨_, rfl⟩
  refine ⟨final.reset x, ?_, ?_⟩
  · rw [SkipList.removeElement, if_neg (by rw [inList]; decide)]
    simp only [finds, Option.bind_eq_bind, Option.bind_some]
    rw [looped]
    simp only [Option.bind_some]
    rw [links 0 positive, head]
    simp only [Option.bind_some]
    rw [← unlinked_eq, releases]
    simp only [Option.bind_some]
    rw [last, prev_self, final_eq]
    by_cases back : list.back = some x
    · rw [if_pos back, if_pos back]
      rfl
    · rw [if_neg back, if_neg back, ← last]
      rfl
  · have final_levels : (final.reset x).levels = Function.update levels (some x) [] := by
      rw [← levels_eq, final_eq]
      rfl
    have final_level : ∀ g, g ≠ some x → (final.reset x).level g = list.level g := by
      intro g apart
      rw [level, final_levels, Function.update_of_ne apart, same]
    refine ⟨?_, ?_, ?_, ?_, ?_, ?_, ?_, ?_, final_level, ?_, Function.update_self _ _ _, ?_, ?_⟩
    · rw [final_eq]
      exact comparable
    · rw [final_eq]
      exact maxLevel
    · rw [final_eq]
      exact made
    · rw [final_eq]
      exact content
    · rw [final_eq, ← length]
      rfl
    · simp only [← shaped.back_eq_iff]
      rw [final_eq]
      rfl
    · rw [final_eq, ← inList_eq]
      rfl
    · rw [final_levels, Function.update_self]
    · refine (linked (below (final.reset x).level) (fun g apart => ?_) fun i => ?_).congr
        fun g member => ⟨rfl, ?_⟩
      · funext i
        rw [below, below, final_level g apart]
      · rw [below_eq_false, level, final_levels, Function.update_self]
        exact Nat.zero_le i
      · rw [final_levels]
        exact Function.update_of_ne (fun is => x_out (member x is)) _ _
    · intro e apart
      rw [← prev_of, final_eq]
      exact Function.update_of_ne apart _ _
    · refine ⟨prevTopLevel, fun e apart => ?_, adjusted⟩
      rw [final_eq]
      exact Function.update_of_ne apart _ _

/-! ### Going along -/

theorem Shaped.levels_eq (shaped : Shaped list (front ++ x :: back)) (i : Nat) :
    (list.levels (some x))[i]? =
      if i < list.level (some x) then some (nextAt (below list.level) i back) else none := by
  by_cases inside : i < list.level (some x)
  · rw [if_pos inside, shaped.linked.elem (below_iff.mpr inside)]
  · rw [if_neg inside, List.getElem?_eq_none (Nat.not_lt.mp inside)]

theorem Shaped.next (shaped : Shaped list (front ++ x :: back)) : list.next x = back.head? := by
  have positive := (shaped.heights x (by simp)).1
  rw [SkipList.next, shaped.levels_eq, if_pos positive, Option.join_some]
  exact nextAt_zero fun e member => (shaped.heights e (by simp [member])).1

theorem Shaped.prev (shaped : Shaped list (front ++ x :: back)) : list.prev x = front.getLast? :=
  (shaped.backed front x back rfl).1

/-- The links back, from one level to another, lead to the last element seen at a higher one. -/
theorem Shaped.prevLevelFrom (shaped : Shaped list (front ++ back)) {j rounds : Nat} (less : j ≤ i)
    (enough : front.length < rounds) :
    list.prevLevelFrom i rounds (lastAt (below list.level) j front) =
      some (lastAt (below list.level) i front) := by
  have backed := shaped.backed
  clear shaped
  induction rounds generalizing front back j with
  | zero => exact absurd enough (Nat.not_lt_zero _)
  | succ rounds inductionHypothesis =>
    obtain ⟨first, rest, rfl, last, unseen⟩ := exists_lastAt (below list.level) j front
    have unseen' : ∀ e ∈ rest, below list.level (some e) i = false := by
      intro e member
      have := below_eq_false.mp (unseen e member)
      rw [below_eq_false]
      omega
    rw [lastAt_append_of_unseen unseen']
    cases here : lastAt (below list.level) j (first ++ rest) with
    | none =>
      rw [here] at last
      obtain rfl := List.getLast?_eq_none_iff.mp last
      rfl
    | some e =>
      rw [here] at last
      obtain ⟨before, rfl⟩ := List.getLast?_eq_some_iff.mp last
      have high := below_iff.mp (seen_of_nextAt here)
      rw [lastAt_concat, SkipList.prevLevelFrom]
      by_cases inside : i < list.level (some e)
      · rw [if_pos inside, if_pos (below_iff.mpr inside)]
      · have backed' : Backed list.level list.prev list.prevTopLevel
            (before ++ e :: (rest ++ back)) := by simpa using backed
        rw [if_neg inside, if_neg (by rw [below_iff]; exact inside),
          (backed' before e (rest ++ back) rfl).2]
        refine inductionHypothesis (by omega) ?_ backed'
        simp only [List.length_append, List.length_singleton] at enough
        omega

theorem Shaped.prevLevel (shaped : Shaped list (front ++ x :: back)) (i : Nat) :
    list.prevLevel x i = some (if i < list.level (some x) then lastAt (below list.level) i front
      else none) := by
  obtain ⟨prev_x, top_x⟩ := shaped.backed front x back rfl
  have first : list.prev x = lastAt (below list.level) 0 front := by
    rw [prev_x, lastAt_zero fun e member => (shaped.heights e (by simp [member])).1]
  rw [SkipList.prevLevel]
  by_cases inside : i < list.level (some x)
  · rw [if_neg (Nat.not_le.mpr inside), if_pos inside]
    by_cases zero : i = 0
    · rw [if_pos zero, first, zero]
    by_cases top : i = list.level (some x) - 1
    · rw [if_neg zero, if_pos top, top_x, top]
    rw [if_neg zero, if_neg top, first]
    refine shaped.prevLevelFrom (Nat.zero_le i) ?_
    have := shaped.length_le
    rw [List.length_append] at this
    omega
  · rw [if_pos (Nat.not_lt.mp inside), if_neg inside]

theorem Shaped.prevLevel_ends (shaped : Shaped list row) (x i : Nat) :
    ∃ prev, list.prevLevel x i = some prev := by
  by_cases member : x ∈ row
  · obtain ⟨front, back, rfl⟩ := List.append_of_mem member
    exact ⟨_, shaped.prevLevel i⟩
  · refine ⟨none, ?_⟩
    rw [SkipList.prevLevel, if_pos]
    rw [level, (shaped.outside x member).1]
    exact Nat.zero_le i

/-- `PrevLevel` is the element that `NextLevel` leads from. -/
theorem Shaped.prevLevel_iff (shaped : Shaped list row) (x p i : Nat) :
    list.prevLevel x i = some (some p) ↔ list.nextLevel p i = some x := by
  have fromOutside : ∀ {e}, e ∉ row → list.level (some e) = 0 := by
    intro e out
    rw [level, (shaped.outside e out).1]
    rfl
  have nodup := shaped.nodup
  constructor
  · intro is
    by_cases member : x ∈ row
    · obtain ⟨front, back, rfl⟩ := List.append_of_mem member
      rw [shaped.prevLevel, Option.some_inj] at is
      by_cases inside : i < list.level (some x)
      · rw [if_pos inside] at is
        obtain ⟨first, rest, rfl, last, unseen⟩ := exists_lastAt (below list.level) i front
        rw [is] at last
        obtain ⟨before, rfl⟩ := List.getLast?_eq_some_iff.mp last
        have shaped' : Shaped list (before ++ p :: (rest ++ x :: back)) := by simpa using shaped
        rw [SkipList.nextLevel, shaped'.levels_eq, if_pos (below_iff.mp (seen_of_nextAt is)),
          Option.join_some, nextAt_append_of_unseen unseen, nextAt_cons_of_lt inside]
      · rw [if_neg inside] at is
        cases is
    · rw [SkipList.prevLevel, if_pos (by rw [fromOutside member]; exact Nat.zero_le i)] at is
      cases is
  · intro is
    by_cases member : p ∈ row
    · obtain ⟨front, back, rfl⟩ := List.append_of_mem member
      rw [SkipList.nextLevel, shaped.levels_eq] at is
      by_cases inside : i < list.level (some p)
      · rw [if_pos inside, Option.join_some] at is
        obtain ⟨sees, mid, rest, rfl, unseen⟩ := nextAt_eq_some.mp is
        have shaped' : Shaped list ((front ++ [p] ++ mid) ++ x :: rest) := by simpa using shaped
        rw [shaped'.prevLevel, if_pos (below_iff.mp sees), lastAt_append_of_unseen unseen,
          lastAt_concat, if_pos (below_iff.mpr inside)]
      · rw [if_neg inside] at is
        cases is
    · rw [SkipList.nextLevel, (shaped.outside p member).1] at is
      cases is

end SkipList

end Frobio.Skiplist
