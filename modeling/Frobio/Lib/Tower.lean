/-
This file is about rows of elements with links at many levels. An element is seen at some of the
levels, and is linked, at each of these, with the first element behind it that is seen there. A
header stands in front of the row; it is `none`, and an element is `some`.

`Linked.toggle` is the rule for a change of one link: an element is seen at one more level, or at one
less, when the last one in front of it that is seen there is linked anew. The elements also have a
link back, to the last one in front that is as high as they are. If an element comes or goes, the
links back that change are those of the elements behind it that are higher than all between
(`Record`), and the rules for these are `Backed.insert` and `Backed.remove`.
-/

import Mathlib.Data.List.Basic
import Mathlib.Tactic

namespace Frobio.Tower

variable {Elem : Type}

/-! ### Rows -/

section

variable (seen : Option Elem → Nat → Bool)

/-- The first of these that is seen at the level. -/
def nextAt (i : Nat) (row : List Elem) : Option Elem := row.find? fun e => seen (some e) i

/-- The last of these that is seen at the level, or the header. -/
def lastAt (i : Nat) (row : List Elem) : Option Elem := nextAt seen i row.reverse

end

section

variable {seen seen' : Option Elem → Nat → Bool} {i : Nat} {row front back : List Elem} {e : Elem}

theorem nextAt_cons : nextAt seen i (e :: row) =
    if seen (some e) i then some e else nextAt seen i row := by
  rw [nextAt, List.find?_cons]
  cases seen (some e) i
  · rfl
  · rfl

theorem nextAt_append : nextAt seen i (front ++ back) =
    (nextAt seen i front).or (nextAt seen i back) := List.find?_append

theorem nextAt_eq_none : nextAt seen i row = none ↔ ∀ e ∈ row, seen (some e) i = false := by
  rw [nextAt, List.find?_eq_none]
  simp

theorem nextAt_append_of_unseen (unseen : ∀ e ∈ front, seen (some e) i = false) :
    nextAt seen i (front ++ back) = nextAt seen i back := by
  rw [nextAt_append, nextAt_eq_none.mpr unseen, Option.none_or]

theorem nextAt_eq_some : nextAt seen i row = some e ↔ seen (some e) i = true ∧
    ∃ front back, row = front ++ e :: back ∧ ∀ d ∈ front, seen (some d) i = false := by
  rw [nextAt, List.find?_eq_some_iff_append]
  simp

theorem mem_of_nextAt (found : nextAt seen i row = some e) : e ∈ row :=
  List.mem_of_find?_eq_some found

theorem seen_of_nextAt (found : nextAt seen i row = some e) : seen (some e) i = true :=
  (nextAt_eq_some.mp found).1

theorem nextAt_congr (same : ∀ e ∈ row, seen (some e) i = seen' (some e) i) :
    nextAt seen i row = nextAt seen' i row := by
  induction row with
  | nil => rfl
  | cons e row inductionHypothesis =>
    obtain ⟨first, rest⟩ := List.forall_mem_cons.mp same
    rw [nextAt_cons, nextAt_cons, first, inductionHypothesis rest]

theorem lastAt_append : lastAt seen i (front ++ back) =
    (lastAt seen i back).or (lastAt seen i front) := by
  rw [lastAt, List.reverse_append, nextAt_append]
  rfl

theorem lastAt_eq_none : lastAt seen i row = none ↔ ∀ e ∈ row, seen (some e) i = false := by
  rw [lastAt, nextAt_eq_none]
  simp

theorem lastAt_append_of_unseen (unseen : ∀ e ∈ back, seen (some e) i = false) :
    lastAt seen i (front ++ back) = lastAt seen i front := by
  rw [lastAt_append, lastAt_eq_none.mpr unseen, Option.none_or]

theorem lastAt_concat : lastAt seen i (front ++ [e]) =
    if seen (some e) i then some e else lastAt seen i front := by
  rw [lastAt, List.reverse_append, List.reverse_singleton, List.singleton_append, nextAt_cons]
  rfl

theorem lastAt_of_seen (sees : seen row.getLast? i = true) : lastAt seen i row = row.getLast? := by
  rcases List.eq_nil_or_concat' row with rfl | ⟨rest, e, rfl⟩
  · rfl
  · rw [List.getLast?_concat] at sees ⊢
    rw [lastAt_concat, if_pos sees]

/-- Where the last one is that is seen at the level. -/
theorem exists_lastAt (seen : Option Elem → Nat → Bool) (i : Nat) (row : List Elem) :
    ∃ front back, row = front ++ back ∧ front.getLast? = lastAt seen i row ∧
      ∀ e ∈ back, seen (some e) i = false := by
  induction row using List.reverseRecOn with
  | nil => exact ⟨[], [], rfl, rfl, by simp⟩
  | append_singleton row e inductionHypothesis =>
    rw [lastAt_concat]
    cases sees : seen (some e) i with
    | true =>
      refine ⟨row ++ [e], [], by simp, ?_, by simp⟩
      rw [List.getLast?_concat, if_pos rfl]
    | false =>
      obtain ⟨front, back, rfl, last, unseen⟩ := inductionHypothesis
      refine ⟨front, back ++ [e], by simp, ?_, ?_⟩
      · rw [if_neg Bool.false_ne_true, last]
      · rw [List.forall_mem_append]
        exact ⟨unseen, List.forall_mem_singleton.mpr sees⟩

/-- In a row without repetition, an end is at one place. -/
theorem front_unique {front' back' : List Elem} (nodup : (front ++ back).Nodup)
    (same : front ++ back = front' ++ back') (last : front.getLast? = front'.getLast?) :
    front = front' ∧ back = back' := by
  rcases List.append_eq_append_iff.mp same with ⟨between, rfl, rfl⟩ | ⟨between, rfl, rfl⟩
  · rcases List.eq_nil_or_concat' between with rfl | ⟨rest, e, rfl⟩
    · exact ⟨by simp, by simp⟩
    · rw [← List.append_assoc, List.getLast?_concat] at last
      have inside := List.mem_of_getLast? last
      rw [List.append_assoc] at nodup
      exact ((List.nodup_append.mp nodup).2.2 e inside e (by simp) rfl).elim
  · rcases List.eq_nil_or_concat' between with rfl | ⟨rest, e, rfl⟩
    · exact ⟨by simp, by simp⟩
    · rw [← List.append_assoc, List.getLast?_concat] at last
      have inside := List.mem_of_getLast? last.symm
      rw [List.append_assoc] at nodup
      have apart := (List.nodup_append.mp nodup).2.2 e inside e (by simp) rfl
      exact apart.elim

end

/-! ### Links -/

/-- The header, and each element, is linked with the next one at every level that it is seen at. -/
def Linked (seen : Option Elem → Nat → Bool) (levels : Option Elem → List (Option Elem))
    (row : List Elem) : Prop :=
  ∀ front back, row = front ++ back → ∀ i, seen front.getLast? i = true →
    (levels front.getLast?)[i]? = some (nextAt seen i back)

section

variable {seen seen' : Option Elem → Nat → Bool} {levels levels' : Option Elem → List (Option Elem)}
  {row front back : List Elem} {e x : Elem} {i j : Nat}

theorem Linked.header (linked : Linked seen levels row) (sees : seen none i = true) :
    (levels none)[i]? = some (nextAt seen i row) := linked [] row rfl i sees

theorem Linked.elem (linked : Linked seen levels (front ++ e :: back))
    (sees : seen (some e) i = true) : (levels (some e))[i]? = some (nextAt seen i back) := by
  have last : (front ++ [e]).getLast? = some e := List.getLast?_concat
  have here := linked (front ++ [e]) back (by simp) i
  rw [last] at here
  exact here sees

/-- What is not in the row does not matter. -/
theorem Linked.congr (linked : Linked seen levels row)
    (same : ∀ g, (∀ e, g = some e → e ∈ row) → seen' g = seen g ∧ levels' g = levels g) :
    Linked seen' levels' row := by
  intro front back split i sees
  have inside : ∀ e, front.getLast? = some e → e ∈ row := fun e last =>
    split ▸ List.mem_append_left _ (List.mem_of_getLast? last)
  obtain ⟨seen_same, levels_same⟩ := same _ inside
  rw [seen_same] at sees
  rw [levels_same, linked front back split i sees]
  refine congrArg some (nextAt_congr fun e member => ?_)
  rw [(same (some e) fun d is => Option.some.inj is ▸ split ▸ List.mem_append_right _ member).1]

/-- One link is changed, and one element is seen at one more level or at one less. -/
theorem Linked.toggle (linked : Linked seen levels (front ++ x :: back))
    (nodup : (front ++ x :: back).Nodup)
    (others : ∀ g i, ¬(g = some x ∧ i = j) → seen' g i = seen g i)
    (kept : ∀ g i, ¬(i = j ∧ (g = some x ∨ g = lastAt seen j front)) →
      (levels' g)[i]? = (levels g)[i]?)
    (relinked : (levels' (lastAt seen j front))[j]? = some (nextAt seen' j (x :: back)))
    (own : seen' (some x) j = true → (levels' (some x))[j]? = some (nextAt seen' j back)) :
    Linked seen' levels' (front ++ x :: back) := by
  have seen_of_ne : ∀ {e}, e ≠ x → seen' (some e) j = seen (some e) j := fun apart =>
    others _ _ fun both => apart (Option.some.inj both.1)
  have same_of_not_mem : ∀ {part : List Elem}, x ∉ part →
      nextAt seen' j part = nextAt seen j part := fun free =>
    nextAt_congr fun e member => seen_of_ne fun same => free (same ▸ member)
  have x_front : x ∉ front := fun member =>
    (List.nodup_append.mp nodup).2.2 x member x List.mem_cons_self rfl
  have x_back : x ∉ back := (List.nodup_cons.mp (List.nodup_append.mp nodup).2.1).1
  intro front' back' split i sees
  by_cases level : i = j
  swap
  · -- at the other levels all is as it was
    rw [others _ _ fun both => level both.2] at sees
    rw [kept _ _ fun both => level both.1, linked front' back' split i sees]
    exact congrArg some (nextAt_congr fun e _ => (others _ _ fun both => level both.2).symm)
  subst level
  by_cases itself : front'.getLast? = some x
  · rw [itself] at sees ⊢
    have place : front ++ [x] ++ back = front' ++ back' := by simpa using split
    obtain ⟨-, rfl⟩ := front_unique (by simpa using nodup) place (by
      rw [List.getLast?_concat, itself])
    exact own sees
  rw [others _ _ fun both => itself both.1] at sees
  by_cases before : front'.getLast? = lastAt seen i front
  · obtain ⟨first, rest, parts, last, unseen⟩ := exists_lastAt seen i front
    have place : front' ++ back' = first ++ (rest ++ x :: back) := by
      rw [← split, parts, List.append_assoc]
    obtain ⟨-, rfl⟩ := front_unique (split ▸ nodup) place (before.trans last.symm)
    rw [before, relinked, nextAt_append_of_unseen]
    intro d member
    have apart : d ≠ x := by
      rintro rfl
      exact x_front (parts ▸ List.mem_append_right _ member)
    rw [seen_of_ne apart]
    exact unseen d member
  rw [kept _ _ fun both => both.2.elim itself before, linked front' back' split i sees]
  refine congrArg some ?_
  rcases List.append_eq_append_iff.mp split with ⟨between, rfl, tail⟩ | ⟨between, rfl, rfl⟩
  · -- behind the element
    cases between with
    | nil =>
      exfalso
      rw [List.append_nil] at before sees
      exact before (lastAt_of_seen sees).symm
    | cons d between =>
      rw [List.cons_append, List.cons.injEq] at tail
      refine (same_of_not_mem fun member => x_back ?_).symm
      rw [tail.2]
      exact List.mem_append_right _ member
  · -- in front of it: the one that is found is in front of it too
    have some' : nextAt seen i between ≠ none := by
      intro none
      have unseen := nextAt_eq_none.mp none
      rw [lastAt_append_of_unseen unseen] at before
      exact before (lastAt_of_seen sees).symm
    obtain ⟨d, found⟩ := Option.ne_none_iff_exists'.mp some'
    have free : x ∉ between := fun member => x_front (List.mem_append_right _ member)
    rw [nextAt_append, nextAt_append, same_of_not_mem free, found]
    rfl

/-- An element that is seen nowhere can be left out. -/
theorem Linked.forget (linked : Linked seen levels (front ++ x :: back))
    (unseen : ∀ i, seen (some x) i = false) : Linked seen levels (front ++ back) := by
  have drop : ∀ (i : Nat) (part : List Elem),
      nextAt seen i (part ++ x :: back) = nextAt seen i (part ++ back) := by
    intro i part
    rw [nextAt_append, nextAt_append, nextAt_cons, unseen i, if_neg Bool.false_ne_true]
  intro front' back' split i sees
  rcases List.append_eq_append_iff.mp split with ⟨between, rfl, rfl⟩ | ⟨between, rfl, rfl⟩
  · rcases List.eq_nil_or_concat' between with rfl | ⟨rest, d, rfl⟩
    · rw [List.append_nil] at sees ⊢
      have linked := linked front (x :: back') (by simp) i sees
      rw [linked, nextAt_cons, unseen i, if_neg Bool.false_ne_true]
    · have last : (front ++ (rest ++ [d])).getLast? = (front ++ x :: (rest ++ [d])).getLast? := by
        rw [← List.append_assoc, List.getLast?_concat, ← List.cons_append, ← List.append_assoc,
          List.getLast?_concat]
      rw [last] at sees ⊢
      exact linked _ back' (by simp) i sees
  · rw [linked front' (between ++ x :: back) (by simp) i sees, drop]

/-- One can be put in that is seen nowhere. -/
theorem Linked.admit (linked : Linked seen levels (front ++ back))
    (unseen : ∀ i, seen (some x) i = false) : Linked seen levels (front ++ x :: back) := by
  intro front' back' split i sees
  rcases List.append_eq_append_iff.mp split with ⟨between, rfl, tail⟩ | ⟨between, rfl, rfl⟩
  · cases between with
    | nil =>
      rw [List.append_nil] at sees ⊢
      rw [List.nil_append] at tail
      rw [← tail, nextAt_cons, unseen i, if_neg Bool.false_ne_true]
      exact linked front back rfl i sees
    | cons d between =>
      rw [List.cons_append, List.cons.injEq] at tail
      obtain ⟨rfl, rfl⟩ := tail
      rcases List.eq_nil_or_concat' between with rfl | ⟨rest, c, rfl⟩
      · rw [List.getLast?_concat, unseen i] at sees
        cases sees
      · have last : (front ++ x :: (rest ++ [c])).getLast? = (front ++ (rest ++ [c])).getLast? := by
          rw [← List.append_assoc, List.getLast?_concat, ← List.cons_append, ← List.append_assoc,
            List.getLast?_concat]
        rw [last] at sees ⊢
        exact linked _ back' (by simp) i sees
  · rw [linked front' (between ++ back) (by simp) i sees, nextAt_append, nextAt_append, nextAt_cons,
      unseen i, if_neg Bool.false_ne_true]

end

/-! ### Changing a link -/

/-- What is as high as this is seen at the levels below. -/
def below (height : Option Elem → Nat) (g : Option Elem) (i : Nat) : Bool := i < height g

theorem below_iff {height : Option Elem → Nat} {g : Option Elem} {i : Nat} :
    below height g i = true ↔ i < height g := decide_eq_true_iff

theorem nextAt_cons_of_lt {height : Option Elem → Nat} {row : List Elem} {e : Elem} {i : Nat}
    (less : i < height (some e)) : nextAt (below height) i (e :: row) = some e := by
  rw [nextAt_cons, if_pos (below_iff.mpr less)]

/-- At the lowest level, all are seen. -/
theorem nextAt_zero {height : Option Elem → Nat} {row : List Elem}
    (positive : ∀ e ∈ row, 0 < height (some e)) : nextAt (below height) 0 row = row.head? := by
  cases row with
  | nil => rfl
  | cons e row => exact nextAt_cons_of_lt (positive e List.mem_cons_self)

theorem lastAt_zero {height : Option Elem → Nat} {row : List Elem}
    (positive : ∀ e ∈ row, 0 < height (some e)) : lastAt (below height) 0 row = row.getLast? := by
  rw [lastAt, nextAt_zero fun e member => positive e (List.mem_reverse.mp member),
    List.head?_reverse]

theorem below_eq_false {height : Option Elem → Nat} {g : Option Elem} {i : Nat} :
    below height g i = false ↔ height g ≤ i := by
  rw [← Bool.not_eq_true, below_iff, Nat.not_lt]

section

variable [DecidableEq Elem] {levels : Option Elem → List (Option Elem)} {g h next : Option Elem}
  {i j : Nat}

/-- `g` is linked anew at a level. -/
def relink (levels : Option Elem → List (Option Elem)) (g : Option Elem) (j : Nat)
    (next : Option Elem) : Option Elem → List (Option Elem) :=
  Function.update levels g ((levels g).set j next)

theorem length_relink : (relink levels g j next h).length = (levels h).length := by
  by_cases same : h = g
  · rw [same, relink, Function.update_self, List.length_set]
  · rw [relink, Function.update_of_ne same]

theorem relink_self (inside : j < (levels g).length) : (relink levels g j next g)[j]? = some next := by
  rw [relink, Function.update_self, List.getElem?_set_self inside]

theorem relink_of_ne (apart : ¬(h = g ∧ i = j)) :
    (relink levels g j next h)[i]? = (levels h)[i]? := by
  by_cases same : h = g
  · rw [same, relink, Function.update_self,
      List.getElem?_set_ne fun is => apart ⟨same, is.symm⟩]
  · rw [relink, Function.update_of_ne same]

theorem relink_same (is : (levels g)[j]? = some next) : relink levels g j next = levels := by
  funext h
  by_cases same : h = g
  · rw [same, relink, Function.update_self]
    obtain ⟨inside, is⟩ := List.getElem?_eq_some_iff.mp is
    rw [← is, List.set_getElem_self]
  · rw [relink, Function.update_of_ne same]

/-- Seen as its height says, but for one element, which is seen from a level on and up to another. -/
def partly (height : Option Elem → Nat) (x : Elem) (low high : Nat) (g : Option Elem) (i : Nat) :
    Bool :=
  if g = some x then low ≤ i ∧ i < high else i < height g

variable {height : Option Elem → Nat} {x : Elem} {low high : Nat} {row front back : List Elem}

theorem partly_of_ne (apart : g ≠ some x) : partly height x low high g i = below height g i := by
  rw [partly, if_neg apart, below]

theorem partly_self : partly height x low high (some x) i = decide (low ≤ i ∧ i < high) := by
  rw [partly, if_pos rfl]

/-- From the lowest level up to its height, it is seen as the others. -/
theorem partly_height : partly height x 0 (height (some x)) = below height := by
  funext g i
  by_cases same : g = some x
  · rw [same, partly_self, below]
    simp
  · exact partly_of_ne same

theorem nextAt_partly (free : x ∉ row) :
    nextAt (partly height x low high) i row = nextAt (below height) i row :=
  nextAt_congr fun _ member => partly_of_ne fun same => free (Option.some.inj same ▸ member)

theorem lastAt_partly (free : x ∉ row) :
    lastAt (partly height x low high) i row = lastAt (below height) i row :=
  nextAt_partly fun member => free (List.mem_reverse.mp member)

/-- Where an element stands, it is not the one before it. -/
theorem lastAt_ne (free : x ∉ front) : lastAt (below height) j front ≠ some x := fun same =>
  free (List.mem_reverse.mp (mem_of_nextAt same))

theorem lt_height_lastAt (within : j < height none) : j < height (lastAt (below height) j front) := by
  cases last : lastAt (below height) j front with
  | none => exact within
  | some e => exact below_iff.mp (seen_of_nextAt last)

/-- The link across an element that is not seen at the level. -/
theorem Linked.across {high : Nat} (linked : Linked (partly height x low high) levels (front ++ x :: back))
    (nodup : (front ++ x :: back).Nodup) (unseen : partly height x low high (some x) j = false)
    (inside : j < height (lastAt (below height) j front)) :
    (levels (lastAt (below height) j front))[j]? = some (nextAt (below height) j back) := by
  have x_front : x ∉ front := fun member =>
    (List.nodup_append.mp nodup).2.2 x member x List.mem_cons_self rfl
  have x_back : x ∉ back := (List.nodup_cons.mp (List.nodup_append.mp nodup).2.1).1
  obtain ⟨first, rest, rfl, last, unseenRest⟩ := exists_lastAt (below height) j front
  have sees : partly height x low high first.getLast? j = true := by
    rw [last, partly_of_ne (lastAt_ne x_front), below_iff]
    exact inside
  have link := linked first (rest ++ x :: back) (by simp) j sees
  rw [last] at link
  have restUnseen : ∀ e ∈ rest, partly height x low high (some e) j = false := by
    intro e member
    have apart : (some e) ≠ some x := fun same =>
      x_front (List.mem_append_right _ (Option.some.inj same ▸ member))
    rw [partly_of_ne apart]
    exact unseenRest e member
  rw [link, nextAt_append_of_unseen restUnseen, nextAt_cons, unseen, if_neg Bool.false_ne_true,
    nextAt_partly x_back]

/-- A new element is linked at one more level. -/
theorem Linked.raise (linked : Linked (partly height x 0 j) levels (front ++ x :: back))
    (nodup : (front ++ x :: back).Nodup) (own : j < (levels (some x)).length)
    (inside : j < (levels (lastAt (below height) j front)).length) :
    Linked (partly height x 0 (j + 1))
      (relink (relink levels (some x) j (nextAt (below height) j back))
        (lastAt (below height) j front) j (some x)) (front ++ x :: back) := by
  have x_front : x ∉ front := fun member =>
    (List.nodup_append.mp nodup).2.2 x member x List.mem_cons_self rfl
  have x_back : x ∉ back := (List.nodup_cons.mp (List.nodup_append.mp nodup).2.1).1
  have apart : lastAt (below height) j front ≠ some x := lastAt_ne x_front
  refine linked.toggle (j := j) nodup ?_ ?_ ?_ ?_
  · intro g i other
    by_cases same : g = some x
    · subst same
      have : i ≠ j := fun is => other ⟨rfl, is⟩
      rw [partly_self, partly_self, decide_eq_decide]
      omega
    · rw [partly_of_ne same, partly_of_ne same]
  · intro g i other
    rw [lastAt_partly x_front] at other
    rw [relink_of_ne fun both => other ⟨both.2, .inr both.1⟩,
      relink_of_ne fun both => other ⟨both.2, .inl both.1⟩]
  · rw [lastAt_partly x_front, relink_self (by rw [length_relink]; exact inside), nextAt_cons,
      partly_self, if_pos (by simp)]
  · intro _
    rw [relink_of_ne fun both => apart both.1.symm, relink_self own, nextAt_partly x_back]

/-- An element that goes is no more linked with at the lowest of its levels. -/
theorem Linked.lower (linked : Linked (partly height x j high) levels (front ++ x :: back))
    (nodup : (front ++ x :: back).Nodup)
    (inside : j < (levels (lastAt (below height) j front)).length) :
    Linked (partly height x (j + 1) high)
      (relink levels (lastAt (below height) j front) j (nextAt (below height) j back))
      (front ++ x :: back) := by
  have x_front : x ∉ front := fun member =>
    (List.nodup_append.mp nodup).2.2 x member x List.mem_cons_self rfl
  have x_back : x ∉ back := (List.nodup_cons.mp (List.nodup_append.mp nodup).2.1).1
  refine linked.toggle (j := j) nodup ?_ ?_ ?_ ?_
  · intro g i other
    by_cases same : g = some x
    · subst same
      have : i ≠ j := fun is => other ⟨rfl, is⟩
      rw [partly_self, partly_self, decide_eq_decide]
      omega
    · rw [partly_of_ne same, partly_of_ne same]
  · intro g i other
    rw [lastAt_partly x_front] at other
    rw [relink_of_ne fun both => other ⟨both.2, .inr both.1⟩]
  · rw [lastAt_partly x_front, relink_self inside, nextAt_cons, partly_self, if_neg (by simp),
      nextAt_partly x_back]
  · intro sees
    rw [partly_self] at sees
    simp at sees

end

/-! ### Links back -/

/-- Each element is linked with the one in front of it, and with the last one there that is as high
as it is. -/
def Backed (height : Option Elem → Nat) (prev prevTop : Elem → Option Elem) (row : List Elem) :
    Prop :=
  ∀ front e back, row = front ++ e :: back →
    prev e = front.getLast? ∧ prevTop e = lastAt (below height) (height (some e) - 1) front

theorem Backed.congr {height height' : Option Elem → Nat}
    {prev prev' prevTop prevTop' : Elem → Option Elem} {row : List Elem}
    (backed : Backed height prev prevTop row)
    (same : ∀ e ∈ row, height' (some e) = height (some e) ∧ prev' e = prev e ∧
      prevTop' e = prevTop e) : Backed height' prev' prevTop' row := by
  intro front e back split
  obtain ⟨was, wasTop⟩ := backed front e back split
  obtain ⟨height_same, prev_same, prevTop_same⟩ := same e (split ▸ by simp)
  refine ⟨prev_same.trans was, ?_⟩
  rw [prevTop_same, wasTop, height_same, lastAt, lastAt]
  refine nextAt_congr fun d member => ?_
  rw [below, below, (same d (split ▸ List.mem_append_left _ (List.mem_reverse.mp member))).1]

/-- It is higher than all in front of it. -/
def Record (height : Option Elem → Nat) (row : List Elem) (e : Elem) : Prop :=
  ∃ front back, row = front ++ e :: back ∧ ∀ d ∈ front, height (some d) < height (some e)

/-- Of the records that are higher than `i` and not higher than the level, the links are new ones. -/
structure Adjusted (height : Option Elem → Nat) (row : List Elem) (i level : Nat)
    (goal : Nat → Option Elem) (old new : Elem → Option Elem) : Prop where
  records : ∀ e, Record height row e → i < height (some e) → height (some e) ≤ level →
    new e = goal (height (some e))
  others : ∀ e, ¬(Record height row e ∧ i < height (some e) ∧ height (some e) ≤ level) →
    new e = old e

section

variable {height : Option Elem → Nat} {prev prev' prevTop : Elem → Option Elem}
  {row front middle back : List Elem} {e x : Elem} {i level : Nat} {goal : Nat → Option Elem}
  {old new : Elem → Option Elem}

/-- The next one that is high enough is a record. -/
theorem record_of_nextAt (found : nextAt (below height) i row = some e) :
    Record height row e ∧ i < height (some e) := by
  obtain ⟨sees, front, back, rfl, unseen⟩ := nextAt_eq_some.mp found
  rw [below_iff] at sees
  refine ⟨⟨front, back, rfl, fun d member => ?_⟩, sees⟩
  exact (below_eq_false.mp (unseen d member)).trans_lt sees

/-- Another record that is as high comes later, and is higher. -/
theorem lt_of_record (found : nextAt (below height) i row = some e) {d : Elem}
    (record : Record height row d) (high : i < height (some d)) (apart : d ≠ e) :
    height (some e) < height (some d) := by
  obtain ⟨-, front, back, rfl, unseen⟩ := nextAt_eq_some.mp found
  obtain ⟨before, after, split, lower⟩ := record
  have outside : d ∉ front := fun member =>
    absurd high (Nat.not_lt.mpr (below_eq_false.mp (unseen d member)))
  refine lower e ?_
  rcases List.append_eq_append_iff.mp split with ⟨between, rfl, tail⟩ | ⟨between, rfl, tail⟩
  · cases between with
    | nil => exact absurd (List.cons.inj tail).1.symm apart
    | cons c between =>
      rw [List.cons_append, List.cons.injEq] at tail
      rw [tail.1]
      exact List.mem_append_right _ List.mem_cons_self
  · cases between with
    | nil => exact absurd (List.cons.inj tail).1 apart
    | cons c between =>
      rw [List.cons_append, List.cons.injEq] at tail
      exact absurd (List.mem_append_right before (tail.1 ▸ List.mem_cons_self)) outside

theorem Adjusted.refl
    (none : ∀ e, Record height row e → i < height (some e) → level < height (some e)) :
    Adjusted height row i level goal old old where
  records := fun e record above within => absurd within (Nat.not_le.mpr (none e record above))
  others := fun _ _ => rfl

/-- The next record is adjusted, and then the higher ones. -/
theorem Adjusted.next [DecidableEq Elem] (found : nextAt (below height) i row = some e)
    (rest : Adjusted height row (height (some e)) level goal
      (if height (some e) ≤ level then Function.update old e (goal (height (some e))) else old) new) :
    Adjusted height row i level goal old new := by
  obtain ⟨record, above⟩ := record_of_nextAt found
  constructor
  · intro d other high within
    by_cases same : d = e
    · subst same
      rw [rest.others d fun both => Nat.lt_irrefl _ both.2.1, if_pos within, Function.update_self]
    · exact rest.records d other (lt_of_record found other high same) within
  · intro d apart
    rw [rest.others d fun both => apart ⟨both.1, above.trans both.2.1, both.2.2⟩]
    split
    · rename_i within
      refine Function.update_of_ne ?_ _ _
      rintro rfl
      exact apart ⟨record, above, within⟩
    · rfl

/-- In a row without repetition, an element is at one place. -/
theorem split_unique {front' back' : List Elem} (nodup : (front ++ e :: back).Nodup)
    (same : front ++ e :: back = front' ++ e :: back') : front = front' ∧ back = back' := by
  have inside := List.nodup_append.mp nodup
  obtain ⟨front_same, -, back_same⟩ := (List.append_cons_inj_of_notMem
    (fun member => inside.2.2 e member e List.mem_cons_self rfl)
    (List.nodup_cons.mp inside.2.1).1).mp same
  exact ⟨front_same, back_same⟩

/-- The links back of what is behind a place, when what is in front of the place changes. -/
theorem adjusted_lastAt {before after : List Elem}
    (adjusted : Adjusted height back 0 level
      (fun h => lastAt (below height) (h - 1) after) old new)
    (positive : ∀ e ∈ back, 0 < height (some e)) (nodup : back.Nodup)
    (higher : ∀ h, level < h →
      lastAt (below height) (h - 1) before = lastAt (below height) (h - 1) after)
    {mid rest : List Elem} (place : back = mid ++ e :: rest)
    (was : old e = lastAt (below height) (height (some e) - 1) (before ++ mid)) :
    new e = lastAt (below height) (height (some e) - 1) (after ++ mid) := by
  have high := positive e (place ▸ by simp)
  by_cases record : ∀ d ∈ mid, height (some d) < height (some e)
  · have unseen : ∀ d ∈ mid, below height (some d) (height (some e) - 1) = false := by
      intro d member
      have := record d member
      rw [below_eq_false]
      omega
    rw [lastAt_append_of_unseen unseen] at was ⊢
    by_cases within : height (some e) ≤ level
    · exact adjusted.records e ⟨mid, rest, place, record⟩ high within
    · rw [adjusted.others e fun both => within both.2.2, was]
      exact higher _ (Nat.not_le.mp within)
  · have notRecord : ¬Record height back e := by
      rintro ⟨front, back', same, lower⟩
      obtain ⟨rfl, -⟩ := split_unique (place ▸ nodup) (place.symm.trans same)
      exact record lower
    obtain ⟨d, member, high'⟩ : ∃ d ∈ mid, height (some e) ≤ height (some d) := by
      simpa using record
    have some' : lastAt (below height) (height (some e) - 1) mid ≠ none := by
      rw [ne_eq, lastAt_eq_none]
      intro unseen
      have := below_eq_false.mp (unseen d member)
      omega
    obtain ⟨c, found⟩ := Option.ne_none_iff_exists'.mp some'
    rw [adjusted.others e fun both => notRecord both.1, was, lastAt_append, lastAt_append, found]
    rfl

theorem Backed.insert [DecidableEq Elem] (backed : Backed height prev prevTop (front ++ back))
    (nodup : (front ++ x :: back).Nodup) (positive : ∀ e ∈ back, 0 < height (some e))
    (own : prev' x = front.getLast? ∧ new x = lastAt (below height) (height (some x) - 1) front)
    (moved : ∀ e ∈ front ++ back, prev' e = if back.head? = some e then some x else prev e)
    (adjusted : Adjusted height back 0 (height (some x)) (fun _ => some x) old new)
    (before : ∀ e ∈ front ++ back, old e = prevTop e) :
    Backed height prev' new (front ++ x :: back) := by
  obtain ⟨nodup_front, tail, apart⟩ := List.nodup_append.mp nodup
  obtain ⟨x_back, nodup_back⟩ := List.nodup_cons.mp tail
  -- what stands in front is not touched
  have fixed : ∀ e ∈ front, back.head? ≠ some e ∧ ¬Record height back e := by
    intro e member
    have outside : e ∉ back := fun inside =>
      apart e member e (List.mem_cons_of_mem _ inside) rfl
    refine ⟨fun first => outside (List.mem_of_mem_head? first), ?_⟩
    rintro ⟨mid, rest, rfl, -⟩
    exact outside (by simp)
  intro front' e back' split
  rcases List.append_eq_append_iff.mp split with ⟨between, rfl, tail⟩ | ⟨between, rfl, tail⟩
  · cases between with
    | nil =>
      obtain ⟨rfl, rfl⟩ := List.cons.inj tail
      rw [List.append_nil]
      exact own
    | cons c mid =>
      rw [List.cons_append, List.cons.injEq] at tail
      obtain ⟨rfl, rfl⟩ := tail
      obtain ⟨was, wasTop⟩ := backed (front ++ mid) e back' (by simp)
      have member : e ∈ front ++ (mid ++ e :: back') := by simp
      constructor
      · rw [moved e member]
        cases mid with
        | nil =>
          rw [List.nil_append, List.head?_cons, if_pos rfl]
          exact List.getLast?_concat.symm
        | cons d mid =>
          have other : d ≠ e := by
            rintro rfl
            simp at nodup_back
          rw [List.cons_append, List.head?_cons, if_neg (by simpa using other), was]
          rw [List.getLast?_append, List.getLast?_append]
          simp
      · rw [← before e member] at wasTop
        have whole : Adjusted height (mid ++ e :: back') 0 (height (some x))
            (fun h => lastAt (below height) (h - 1) (front ++ [x])) old new := by
          refine ⟨fun d record high within => ?_, adjusted.others⟩
          rw [adjusted.records d record high within, lastAt_concat, if_pos]
          rw [below_iff]
          omega
        have new_eq := adjusted_lastAt whole positive nodup_back (fun h high => by
          rw [lastAt_concat, if_neg]
          rw [below_iff]
          omega) rfl wasTop
        rw [new_eq]
        simp
  · cases between with
    | nil =>
      obtain ⟨rfl, rfl⟩ := List.cons.inj tail
      rw [List.append_nil] at own
      exact own
    | cons c between =>
      rw [List.cons_append, List.cons.injEq] at tail
      obtain ⟨rfl, rfl⟩ := tail
      have member : e ∈ front' ++ e :: between := by simp
      obtain ⟨was, wasTop⟩ := backed front' e (between ++ back) (by simp)
      obtain ⟨notFirst, notRecord⟩ := fixed e member
      have inside := List.mem_append_left back member
      rw [moved e inside, if_neg notFirst, adjusted.others e fun both => notRecord both.1,
        before e inside]
      exact ⟨was, wasTop⟩

theorem Backed.remove [DecidableEq Elem] (backed : Backed height prev prevTop (front ++ x :: back))
    (nodup : (front ++ x :: back).Nodup) (positive : ∀ e ∈ back, 0 < height (some e))
    (moved : ∀ e ∈ front ++ back, prev' e = if back.head? = some e then front.getLast? else prev e)
    (adjusted : Adjusted height back 0 (height (some x))
      (fun h => lastAt (below height) (h - 1) front) prevTop new) :
    Backed height prev' new (front ++ back) := by
  obtain ⟨nodup_front, tail, apart⟩ := List.nodup_append.mp nodup
  obtain ⟨x_back, nodup_back⟩ := List.nodup_cons.mp tail
  have fixed : ∀ e ∈ front, back.head? ≠ some e ∧ ¬Record height back e := by
    intro e member
    have outside : e ∉ back := fun inside =>
      apart e member e (List.mem_cons_of_mem _ inside) rfl
    refine ⟨fun first => outside (List.mem_of_mem_head? first), ?_⟩
    rintro ⟨mid, rest, rfl, -⟩
    exact outside (by simp)
  intro front' e back' split
  have inBack : ∀ mid, back = mid ++ e :: back' → front' = front ++ mid →
      prev' e = front'.getLast? ∧
        new e = lastAt (below height) (height (some e) - 1) front' := by
    rintro mid rfl rfl
    obtain ⟨was, wasTop⟩ := backed (front ++ x :: mid) e back' (by simp)
    constructor
    · rw [moved e (by simp)]
      cases mid with
      | nil => rw [List.nil_append, List.head?_cons, if_pos rfl, List.append_nil]
      | cons d mid =>
        have other : d ≠ e := by
          rintro rfl
          simp at nodup_back
        rw [List.cons_append, List.head?_cons, if_neg (by simpa using other), was]
        rw [List.getLast?_append, List.getLast?_append]
        simp
    · have top : prevTop e = lastAt (below height) (height (some e) - 1) (front ++ [x] ++ mid) := by
        simpa using wasTop
      refine adjusted_lastAt adjusted positive nodup_back (fun h high => ?_) rfl top
      rw [lastAt_concat, if_neg]
      rw [below_iff]
      omega
  rcases List.append_eq_append_iff.mp split with ⟨mid, rfl, tail⟩ | ⟨between, rfl, tail⟩
  · exact inBack mid tail rfl
  · cases between with
    | nil => exact inBack [] (by simpa using tail.symm) (by simp)
    | cons c between =>
      rw [List.cons_append, List.cons.injEq] at tail
      obtain ⟨rfl, rfl⟩ := tail
      have member : e ∈ front' ++ e :: between := by simp
      obtain ⟨was, wasTop⟩ := backed front' e (between ++ x :: back) (by simp)
      obtain ⟨notFirst, notRecord⟩ := fixed e member
      rw [moved e (List.mem_append_left back member), if_neg notFirst,
        adjusted.others e fun both => notRecord both.1]
      exact ⟨was, wasTop⟩

end

end Frobio.Tower
