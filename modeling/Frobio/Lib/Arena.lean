/-
This file is about memory that is dealt out in chunks which follow each other, and whose
free ones are on chains of links, one chain for each kind of chunk.

What a chunk says of itself, its size, its kind and its link, is read from memory, and so
given as functions of its place. `Stocked` ties the tiling to the chains: each chain has the
free chunks of its kind, and each of them once. The three operations of an allocator
preserve it: a chunk is taken off the head of a chain, is given back to it, or is carved off
behind the last one. A lemma about an operation says which of these functions may change,
and where.
-/

import Mathlib.Data.List.Basic
import Mathlib.Logic.Function.Basic
import Mathlib.Tactic

namespace Frobio.Arena

/-! ### Tilings -/

/-- The chunks follow each other, from the first place to the last. -/
def Tiles (size : Nat → Nat) : Nat → List Nat → Nat → Prop
  | first, [], last => first = last
  | first, c :: rest, last => c = first ∧ 0 < size c ∧ Tiles size (c + size c) rest last

section

variable {size size' : Nat → Nat} {first middle last : Nat} {chunks rest : List Nat}

theorem Tiles.le (tiles : Tiles size first chunks last) : first ≤ last := by
  induction chunks generalizing first with
  | nil => exact Nat.le_of_eq tiles
  | cons c rest inductionHypothesis =>
    obtain ⟨rfl, _, onward⟩ := tiles
    exact Nat.le_trans (Nat.le_add_right _ _) (inductionHypothesis onward)

/-- A chunk has its place between the ends of the tiling. -/
theorem Tiles.within (tiles : Tiles size first chunks last) {c : Nat} (member : c ∈ chunks) :
    first ≤ c ∧ 0 < size c ∧ c + size c ≤ last := by
  induction chunks generalizing first with
  | nil => exact absurd member List.not_mem_nil
  | cons d rest inductionHypothesis =>
    obtain ⟨rfl, positive, onward⟩ := tiles
    rcases List.mem_cons.mp member with rfl | further
    · exact ⟨Nat.le_refl _, positive, onward.le⟩
    · have later := inductionHypothesis onward further
      exact ⟨Nat.le_trans (Nat.le_add_right _ _) later.1, later.2⟩

/-- Two chunks are the same, or do not meet. -/
theorem Tiles.apart (tiles : Tiles size first chunks last) {c d : Nat} (left : c ∈ chunks)
    (right : d ∈ chunks) (differ : c ≠ d) : c + size c ≤ d ∨ d + size d ≤ c := by
  induction chunks generalizing first with
  | nil => exact absurd left List.not_mem_nil
  | cons e rest inductionHypothesis =>
    obtain ⟨rfl, _, onward⟩ := tiles
    rcases List.mem_cons.mp left with rfl | further
    · rcases List.mem_cons.mp right with rfl | further'
      · exact absurd rfl differ
      · exact .inl (onward.within further').1
    · rcases List.mem_cons.mp right with rfl | further'
      · exact .inr (onward.within further).1
      · exact inductionHypothesis onward further further'

/-- The tiling depends on the sizes of its chunks alone. -/
theorem Tiles.congr (tiles : Tiles size first chunks last)
    (same : ∀ c ∈ chunks, size' c = size c) : Tiles size' first chunks last := by
  induction chunks generalizing first with
  | nil => exact tiles
  | cons c rest inductionHypothesis =>
    obtain ⟨rfl, positive, onward⟩ := tiles
    have head := same c List.mem_cons_self
    refine ⟨rfl, head ▸ positive, ?_⟩
    rw [head]
    exact inductionHypothesis onward fun d member => same d (List.mem_cons_of_mem _ member)

theorem Tiles.append (tiles : Tiles size first chunks middle) (onward : Tiles size middle rest last) :
    Tiles size first (chunks ++ rest) last := by
  induction chunks generalizing first with
  | nil => exact (show first = middle from tiles) ▸ onward
  | cons c chunks inductionHypothesis =>
    obtain ⟨rfl, positive, between⟩ := tiles
    exact ⟨rfl, positive, inductionHypothesis between⟩

/-- A chunk is carved off behind the last one. -/
theorem Tiles.concat (tiles : Tiles size first chunks last) (positive : 0 < size last) :
    Tiles size first (chunks ++ [last]) (last + size last) :=
  tiles.append ⟨rfl, positive, rfl⟩

/-- A tiling that is not empty has a chunk at its first place. -/
theorem Tiles.first_mem (tiles : Tiles size first chunks last) (some : first < last) :
    first ∈ chunks := by
  cases chunks with
  | nil => exact absurd (show first = last from tiles) (Nat.ne_of_lt some)
  | cons c rest =>
    obtain ⟨rfl, _⟩ := tiles
    exact List.mem_cons_self

/-- Behind a chunk there is the next one, or the end. -/
theorem Tiles.next_mem (tiles : Tiles size first chunks last) {c : Nat} (member : c ∈ chunks) :
    c + size c ∈ chunks ∨ c + size c = last := by
  induction chunks generalizing first with
  | nil => exact absurd member List.not_mem_nil
  | cons d rest inductionHypothesis =>
    obtain ⟨rfl, _, onward⟩ := tiles
    rcases List.mem_cons.mp member with rfl | further
    · by_cases ends : c + size c = last
      · exact .inr ends
      · have some := Nat.lt_of_le_of_ne onward.le ends
        exact .inl (List.mem_cons_of_mem _ (onward.first_mem some))
    · exact (inductionHypothesis onward further).imp_left (List.mem_cons_of_mem _)

/-- The place behind the last chunk has no chunk. -/
theorem Tiles.last_not_mem (tiles : Tiles size first chunks last) : last ∉ chunks := by
  intro member
  have inside := tiles.within member
  omega

end

/-! ### Chains -/

/-- The links lead from one place of the list to the next, and from the last one to zero. -/
def Chain (next : Nat → Nat) : Nat → List Nat → Prop
  | head, [] => head = 0
  | head, c :: rest => c = head ∧ c ≠ 0 ∧ Chain next (next c) rest

section

variable {next next' : Nat → Nat} {head : Nat} {list other : List Nat}

/-- A chain depends on the links of its places alone. -/
theorem Chain.congr (chain : Chain next head list) (same : ∀ c ∈ list, next' c = next c) :
    Chain next' head list := by
  induction list generalizing head with
  | nil => exact chain
  | cons c rest inductionHypothesis =>
    obtain ⟨rfl, nonzero, onward⟩ := chain
    refine ⟨rfl, nonzero, ?_⟩
    rw [same c List.mem_cons_self]
    exact inductionHypothesis onward fun d member => same d (List.mem_cons_of_mem _ member)

/-- The head of a chain that is not empty is its first place. -/
theorem Chain.exists_cons (chain : Chain next head list) (nonzero : head ≠ 0) :
    ∃ rest, list = head :: rest ∧ Chain next (next head) rest := by
  cases list with
  | nil => exact absurd chain nonzero
  | cons c rest =>
    obtain ⟨rfl, _, onward⟩ := chain
    exact ⟨rest, rfl, onward⟩

end

/-! ### The stock -/

/-- What is read where a chunk is. -/
structure View (Kind : Type) where
  size : Nat → Nat
  next : Nat → Nat
  kind : Nat → Kind

variable {Kind : Type}

/-- The chain from the head has the free chunks of the kind, and each of them once. -/
def Shelf (view : View Kind) (free : Nat → Prop) (chunks : List Nat) (k : Kind) (head : Nat) :
    Prop :=
  ∃ list, Chain view.next head list ∧ list.Nodup ∧
    ∀ c, c ∈ list ↔ c ∈ chunks ∧ view.kind c = k ∧ free c

/-- The chunks tile what lies between two places, and the free ones are on their chains. -/
structure Stocked (view : View Kind) (heads : Kind → Nat) (free : Nat → Prop)
    (first : Nat) (chunks : List Nat) (last : Nat) : Prop where
  tiles : Tiles view.size first chunks last
  shelf : ∀ k, Shelf view free chunks k (heads k)

section

variable {view view' : View Kind} {heads heads' : Kind → Nat} {free free' : Nat → Prop}
  {first last : Nat} {chunks : List Nat}

/-- Nothing is free before any chunk is. -/
theorem Stocked.of_not_free (tiles : Tiles view.size first chunks last)
    (none : ∀ k, heads k = 0) (used : ∀ c ∈ chunks, ¬free c) :
    Stocked view heads free first chunks last := by
  refine ⟨tiles, fun k => ⟨[], none k, List.nodup_nil, fun c => ⟨fun member => ?_, ?_⟩⟩⟩
  · exact absurd member List.not_mem_nil
  · exact fun inside => absurd inside.2.2 (used c inside.1)

/-- A shelf stays as it is if its free chunks do. -/
theorem Shelf.congr {k : Kind} {head : Nat} (shelf : Shelf view free chunks k head)
    (kinds : ∀ c ∈ chunks, view'.kind c = view.kind c)
    (links : ∀ c ∈ chunks, view.kind c = k → free c → view'.next c = view.next c)
    (frees : ∀ c ∈ chunks, view.kind c = k → (free' c ↔ free c)) :
    Shelf view' free' chunks k head := by
  obtain ⟨list, chain, nodup, members⟩ := shelf
  refine ⟨list, chain.congr fun c member => ?_, nodup, fun c => ⟨fun member => ?_, fun inside => ?_⟩⟩
  · have inside := (members c).mp member
    exact links c inside.1 inside.2.1 inside.2.2
  · have inside := (members c).mp member
    exact ⟨inside.1, (kinds c inside.1).trans inside.2.1,
      (frees c inside.1 inside.2.1).mpr inside.2.2⟩
  · have same : view.kind c = k := (kinds c inside.1).symm.trans inside.2.1
    exact (members c).mpr ⟨inside.1, same, (frees c inside.1 same).mp inside.2.2⟩

/-- The stock depends on what is read where its chunks are. -/
theorem Stocked.congr (stocked : Stocked view heads free first chunks last)
    (sizes : ∀ c ∈ chunks, view'.size c = view.size c)
    (kinds : ∀ c ∈ chunks, view'.kind c = view.kind c)
    (links : ∀ c ∈ chunks, free c → view'.next c = view.next c)
    (frees : ∀ c ∈ chunks, (free' c ↔ free c)) :
    Stocked view' heads free' first chunks last :=
  ⟨stocked.tiles.congr sizes, fun k => (stocked.shelf k).congr kinds
    (fun c member _ => links c member) fun c member _ => frees c member⟩

/-- The head of a chain is a free chunk of its kind. -/
theorem Stocked.head_free (stocked : Stocked view heads free first chunks last) {k : Kind}
    (nonzero : heads k ≠ 0) :
    heads k ∈ chunks ∧ view.kind (heads k) = k ∧ free (heads k) := by
  obtain ⟨list, chain, _, members⟩ := stocked.shelf k
  obtain ⟨rest, rfl, _⟩ := chain.exists_cons nonzero
  exact (members _).mp List.mem_cons_self

variable [DecidableEq Kind]

/-- A chunk is taken off the head of a chain. -/
theorem Stocked.take (stocked : Stocked view heads free first chunks last) {k : Kind}
    (nonzero : heads k ≠ 0)
    (sizes : ∀ c ∈ chunks, view'.size c = view.size c)
    (kinds : ∀ c ∈ chunks, view'.kind c = view.kind c)
    (links : ∀ c ∈ chunks, c ≠ heads k → view'.next c = view.next c)
    (frees : ∀ c ∈ chunks, (free' c ↔ free c ∧ c ≠ heads k)) :
    Stocked view' (Function.update heads k (view.next (heads k))) free' first chunks last := by
  have taken := stocked.head_free nonzero
  refine ⟨stocked.tiles.congr sizes, fun k' => ?_⟩
  by_cases same : k' = k
  · obtain rfl := same
    obtain ⟨list, chain, nodup, members⟩ := stocked.shelf k'
    obtain ⟨rest, rfl, onward⟩ := chain.exists_cons nonzero
    obtain ⟨fresh, nodup⟩ := List.nodup_cons.mp nodup
    rw [Function.update_self]
    refine ⟨rest, onward.congr fun c member => ?_, nodup,
      fun c => ⟨fun member => ?_, fun inside => ?_⟩⟩
    · have inside := (members c).mp (List.mem_cons_of_mem _ member)
      exact links c inside.1 fun equal => fresh (equal ▸ member)
    · have inside := (members c).mp (List.mem_cons_of_mem _ member)
      refine ⟨inside.1, (kinds c inside.1).trans inside.2.1, (frees c inside.1).mpr ⟨inside.2.2, ?_⟩⟩
      exact fun equal => fresh (equal ▸ member)
    · have before := (frees c inside.1).mp inside.2.2
      have listed := (members c).mpr ⟨inside.1, (kinds c inside.1).symm.trans inside.2.1, before.1⟩
      exact (List.mem_cons.mp listed).resolve_left before.2
  · have elsewhere : ∀ c, view.kind c = k' → c ≠ heads k := by
      rintro c kind rfl
      exact same (kind.symm.trans taken.2.1)
    rw [Function.update_of_ne same]
    refine (stocked.shelf k').congr kinds (fun c member kind _ => ?_) fun c member kind => ?_
    · exact links c member (elsewhere c kind)
    · rw [frees c member]
      exact and_iff_left (elsewhere c kind)

/-- A chunk is given back to the chain of its kind. -/
theorem Stocked.give (stocked : Stocked view heads free first chunks last) {c : Nat}
    (member : c ∈ chunks) (used : ¬free c) (nonzero : c ≠ 0)
    (sizes : ∀ d ∈ chunks, view'.size d = view.size d)
    (kinds : ∀ d ∈ chunks, view'.kind d = view.kind d)
    (link : view'.next c = heads (view.kind c))
    (links : ∀ d ∈ chunks, d ≠ c → view'.next d = view.next d)
    (frees : ∀ d ∈ chunks, (free' d ↔ d = c ∨ free d)) :
    Stocked view' (Function.update heads (view.kind c) c) free' first chunks last := by
  have other : ∀ d, free d → d ≠ c := fun d isFree equal => used (equal ▸ isFree)
  refine ⟨stocked.tiles.congr sizes, fun k => ?_⟩
  by_cases same : k = view.kind c
  · obtain rfl := same
    obtain ⟨list, chain, nodup, members⟩ := stocked.shelf (view.kind c)
    have fresh : c ∉ list := fun listed => used ((members c).mp listed).2.2
    rw [Function.update_self]
    refine ⟨c :: list, ⟨rfl, nonzero, ?_⟩, List.nodup_cons.mpr ⟨fresh, nodup⟩,
      fun d => ⟨fun listed => ?_, fun inside => ?_⟩⟩
    · rw [link]
      refine chain.congr fun d listed => ?_
      have inside := (members d).mp listed
      exact links d inside.1 (other d inside.2.2)
    · rcases List.mem_cons.mp listed with rfl | further
      · exact ⟨member, kinds d member, (frees d member).mpr (.inl rfl)⟩
      · have inside := (members d).mp further
        exact ⟨inside.1, (kinds d inside.1).trans inside.2.1,
          (frees d inside.1).mpr (.inr inside.2.2)⟩
    · rcases (frees d inside.1).mp inside.2.2 with rfl | before
      · exact List.mem_cons_self
      · have kind := (kinds d inside.1).symm.trans inside.2.1
        exact List.mem_cons_of_mem _ ((members d).mpr ⟨inside.1, kind, before⟩)
  · rw [Function.update_of_ne same]
    refine (stocked.shelf k).congr kinds (fun d listed _ isFree => ?_) fun d listed kind => ?_
    · exact links d listed (other d isFree)
    · rw [frees d listed]
      exact or_iff_right fun equal => same (kind.symm.trans (congrArg _ equal))

omit [DecidableEq Kind] in
/-- A chunk that is in use is carved off behind the last one. -/
theorem Stocked.carve (stocked : Stocked view heads free first chunks last)
    (sizes : ∀ c ∈ chunks, view'.size c = view.size c)
    (kinds : ∀ c ∈ chunks, view'.kind c = view.kind c)
    (links : ∀ c ∈ chunks, free c → view'.next c = view.next c)
    (frees : ∀ c ∈ chunks, (free' c ↔ free c))
    (positive : 0 < view'.size last) (used : ¬free' last) :
    Stocked view' heads free' first (chunks ++ [last]) (last + view'.size last) := by
  have same := stocked.congr sizes kinds links frees
  refine ⟨same.tiles.concat positive, fun k => ?_⟩
  obtain ⟨list, chain, nodup, members⟩ := same.shelf k
  refine ⟨list, chain, nodup, fun c => ?_⟩
  rw [members c, List.mem_append, List.mem_singleton]
  constructor
  · exact fun inside => ⟨.inl inside.1, inside.2⟩
  · rintro ⟨member | rfl, kind, isFree⟩
    · exact ⟨member, kind, isFree⟩
    · exact absurd isFree used

end

/-! ### Objects -/

/-- An object whose place nobody has may join those that have places of their own. -/
theorem single_insert {Object Place : Type} {place : Object → Place} {live : Set Object}
    {new : Object} (single : ∀ o ∈ live, ∀ o' ∈ live, place o = place o' → o = o')
    (fresh : ∀ o ∈ live, place o ≠ place new) :
    ∀ o ∈ insert new live, ∀ o' ∈ insert new live, place o = place o' → o = o' := by
  rintro o (rfl | member) o' (rfl | member') same
  · rfl
  · exact absurd same.symm (fresh o' member')
  · exact absurd same (fresh o member)
  · exact single o member o' member' same

end Frobio.Arena
