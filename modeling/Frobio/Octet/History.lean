/-
This file is about the life of a heap of `octet/octet2.c`: objects are allocated, written,
freed and collected in any order. It shows that the heap stays well formed as long as
`oalloc` takes only chunks of the first bucket from a list, the end of the arena does not
pass the last address, and no collection has anything to keep.

`oalloc_try` zeroes as many bytes as the object has, but begins at the header, and so
forgets the bucket of every chunk that it takes from a list. Where the bucket is not the
first one, the next chunk is then looked for in the midst of the object.
-/

import Frobio.Lib.Run
import Frobio.Octet.Collector

namespace Frobio.Octet

open Memory Arena Run

/-! ### Heaps and their objects -/

/-- What an object was allocated for. -/
structure Object where
  address : Nat
  len : Nat
  cls : UInt8

/-- A heap, and the objects that its owner has. -/
structure Owned where
  heap : Heap
  live : Set Object

/-- The calls, and what the owner does with its objects and its roots. -/
inductive Call
  | alloc (len : Nat) (cls : UInt8)
  | free (obj : Object)
  | gc
  | write (obj : Object) (i : Nat) (b : UInt8)
  | setRoots (roots : List Nat)

/-- The objects that outlive a collection, if there are any roots to collect from. -/
def Owned.kept (s : Owned) : Set Object :=
  {o | o ∈ s.live ∧ ∀ roots, s.heap.oMarkRoots = some roots → Reached s.heap roots o.address}

/-- The first try returns nothing. -/
def NeedsRoom (h : Heap) (len : Nat) (cls : UInt8) : Prop := ∃ h', oallocTry h len cls = .ok (0, h')

/-- The objects that outlive an allocation. -/
def Owned.spared (s : Owned) (len : Nat) (cls : UInt8) : Set Object :=
  {o | o ∈ s.live ∧ (NeedsRoom s.heap len cls → o ∈ s.kept)}

variable (beyond : (Nat → UInt8) → Nat → Nat) (rounds : Nat)

open Classical in
/-- One call. What does not return, or is not the owner's to do, has no next state. -/
noncomputable def step (s : Owned) : Call → Option Owned
  | .alloc len cls =>
    match oalloc beyond rounds s.heap len cls with
    | .ok (p, h) => some ⟨h, insert ⟨p, len, cls⟩ (s.spared len cls)⟩
    | .error _ => none
  | .free obj =>
    if obj ∈ s.live then some ⟨ofree beyond s.heap obj.address, s.live \ {obj}⟩ else none
  | .gc =>
    match ogc beyond rounds s.heap with
    | .ok h => some ⟨h, s.kept⟩
    | .error _ => none
  | .write obj i b =>
    if obj ∈ s.live ∧ i < capOf (s.heap.view.kind (obj.address - HDR_SIZE)) then
      some ⟨{ s.heap with memory := oputb s.heap.memory (obj.address + i) b }, s.live⟩
    else none
  | .setRoots roots =>
    some ⟨{ s.heap with oMarkRoots := s.heap.oMarkRoots.map fun _ => roots }, s.live⟩

/-- The chunks tile the arena, their buckets are valid, the lists have the chunks that no object
has, each under its bucket and once, and each object has a chunk of its own, with its class and at
least its size. -/
def Sound (s : Owned) : Prop :=
  ∃ chunks, TiledBy s.heap chunks ∧
    (∀ b < NUM_BUCKETS,
      Shelf s.heap.view (fun c => ∀ o ∈ s.live, o.address ≠ c + HDR_SIZE) chunks b
        (s.heap.oBucket b)) ∧
    (∀ o ∈ s.live, ∃ c ∈ chunks, o.address = c + HDR_SIZE ∧ s.heap.cls c = o.cls ∧
      o.len ≤ capOf (s.heap.view.kind c)) ∧
    ∀ o ∈ s.live, ∀ o' ∈ s.live, o ≠ o' →
      o.address + capOf (s.heap.view.kind (o.address - HDR_SIZE)) + HDR_SIZE ≤ o'.address ∨
      o'.address + capOf (s.heap.view.kind (o'.address - HDR_SIZE)) + HDR_SIZE ≤ o.address

/-- The object has the class and the size that were asked for, and is zero. -/
structure Granted (h : Heap) (p len : Nat) (cls : UInt8) : Prop where
  cls : h.cls (p - HDR_SIZE) = cls
  bucket : h.view.kind (p - HDR_SIZE) < NUM_BUCKETS
  large : len ≤ capOf (h.view.kind (p - HDR_SIZE))
  zero : ∀ i < capOf (h.view.kind (p - HDR_SIZE)), h.memory (p + i) = 0

/-! ### The condition -/

def NullRoots (h : Heap) : Prop := ∀ roots, h.oMarkRoots = some roots → ∀ root ∈ roots, root = 0

/-- The place behind a new chunk, if it is carved off. -/
def Heap.behind (h : Heap) (b : Nat) : Nat := h.oRamUsed + (capOf b + HDR_SIZE)

/-- A chunk that is taken from a list is of the first bucket. One that is carved off ends before the
end of the addresses. A collection has no roots, and makes room for the first bucket alone. -/
def Careful (s : Owned) : Call → Prop
  | .alloc len _ => ∀ b, osize2bucket len = .ok b →
      (s.heap.oBucket b ≠ 0 → b = 0) ∧
      (s.heap.oBucket b = 0 →
        (s.heap.behind b % 65536 < s.heap.oRamEnd → s.heap.behind b < 65536) ∧
        (s.heap.oRamEnd ≤ s.heap.behind b % 65536 → b = 0 ∧ NullRoots s.heap))
  | .gc => NullRoots s.heap
  | .free _ | .write .. | .setRoots _ => True

/-! ### The invariant -/

/-- A chunk is free if it has no class, and the other ones are the objects'. -/
structure Kept (h : Heap) (live : Set Object) (chunks : List Nat) : Prop where
  tiled : TiledBy h chunks
  stocked : Stocked h.view h.oBucket (fun c => h.cls c = 0) h.oRamBegin chunks h.oRamUsed
  zero : ∀ c ∈ chunks, h.cls c = 0 →
    ∀ i, 2 ≤ i → i < capOf (h.view.kind c) → h.memory (c + HDR_SIZE + i) = 0
  lives : ∀ o ∈ live, ∃ c ∈ chunks, o.address = c + HDR_SIZE ∧ h.cls c = o.cls ∧ o.cls ≠ 0 ∧
    o.len ≤ capOf (h.view.kind c)
  owned : ∀ c ∈ chunks, h.cls c ≠ 0 → ∃ o ∈ live, o.address = c + HDR_SIZE
  single : ∀ o ∈ live, ∀ o' ∈ live, o.address = o'.address → o = o'

section

variable {h h' : Heap} {live : Set Object} {chunks : List Nat} {c : Nat}

/-- What is kept is what is to be shown. -/
theorem Kept.sound (kept : Kept h live chunks) : Sound ⟨h, live⟩ := by
  refine ⟨chunks, kept.tiled, fun b _ => ?_, fun o member => ?_, fun o member o' member' differ => ?_⟩
  · refine (kept.stocked.shelf b).congr (fun _ _ => rfl) (fun _ _ _ _ => rfl) fun c inside _ => ?_
    constructor
    · intro none
      by_contra used
      obtain ⟨o, member, here⟩ := kept.owned c inside used
      exact none o member here
    · rintro free o member here
      obtain ⟨c', _, place, cls, nonzero, _⟩ := kept.lives o member
      have same : c' = c := Nat.add_right_cancel (place.symm.trans here)
      exact nonzero (cls.symm.trans (same ▸ free))
  · obtain ⟨c, inside, place, cls, _, large⟩ := kept.lives o member
    exact ⟨c, inside, place, cls, large⟩
  · obtain ⟨c, inside, place, _⟩ := kept.lives o member
    obtain ⟨c', inside', place', _⟩ := kept.lives o' member'
    have other : c ≠ c' := by
      rintro rfl
      exact differ (kept.single o member o' member' (place.trans place'.symm))
    have apart := kept.tiled.tiles.apart inside inside' other
    rw [Heap.size_view, Heap.size_view] at apart
    show o.address + capOf (h.view.kind (o.address - HDR_SIZE)) + HDR_SIZE ≤ o'.address ∨
      o'.address + capOf (h.view.kind (o'.address - HDR_SIZE)) + HDR_SIZE ≤ o.address
    rw [place, place', Nat.add_sub_cancel, Nat.add_sub_cancel]
    omega

/-- Where memory changes in one chunk, and its bucket does not, the tiling stays. -/
theorem Kept.tiledBy_of_onlyIn (kept : Kept h live chunks) (member : c ∈ chunks)
    (only : OnlyIn h h' c) (buck : h'.buck c = h.buck c) (begins : h'.oRamBegin = h.oRamBegin)
    (uses : h'.oRamUsed = h.oRamUsed) :
    TiledBy h' chunks ∧ ∀ d ∈ chunks, h'.view.kind d = h.view.kind d := by
  have valid : ∀ d ∈ chunks, h.view.kind d < NUM_BUCKETS := fun _ => kept.tiled.kind_lt
  have kinds : ∀ d ∈ chunks, h'.view.kind d = h.view.kind d := fun d =>
    only.kind kept.tiled.tiles member (congrArg (fun x => (x &&& BUCK_MASK).toNat) buck) valid
  refine ⟨⟨?_, fun d inside => ?_, begins ▸ kept.tiled.positive, uses ▸ kept.tiled.bounded⟩, kinds⟩
  · rw [begins, uses]
    refine kept.tiled.tiles.congr fun d inside => ?_
    rw [Heap.size_view, Heap.size_view, kinds d inside]
  · by_cases same : d = c
    · rw [same, buck]
      exact kept.tiled.valid c member
    · rw [(only.view_of_ne kept.tiled.tiles member inside same (valid d inside)).1]
      exact kept.tiled.valid d inside

/-- The other chunks are as they were. -/
theorem Kept.cls_of_ne (kept : Kept h live chunks) (member : c ∈ chunks) (only : OnlyIn h h' c)
    {d : Nat} (inside : d ∈ chunks) (differ : d ≠ c) : h'.cls d = h.cls d :=
  (only.view_of_ne kept.tiled.tiles member inside differ (kept.tiled.kind_lt inside)).2.1

theorem Kept.zero_of_ne (kept : Kept h live chunks) (member : c ∈ chunks) (only : OnlyIn h h' c)
    {d : Nat} (inside : d ∈ chunks) (differ : d ≠ c) (free : h.cls d = 0) {i : Nat} (low : 2 ≤ i)
    (high : i < capOf (h.view.kind d)) : h'.memory (d + HDR_SIZE + i) = 0 := by
  have size := h.size_view d
  rw [Nat.add_assoc, only.memory_of_ne kept.tiled.tiles member inside differ (by omega),
    ← Nat.add_assoc]
  exact kept.zero d inside free i low high

/-- An object of which the chunk was free is not among the live ones. -/
theorem Kept.address_ne (kept : Kept h live chunks) (free : c ∈ chunks → h.cls c = 0) :
    ∀ o ∈ live, o.address ≠ c + HDR_SIZE := by
  intro o member here
  obtain ⟨c', inside, place, cls, nonzero, _⟩ := kept.lives o member
  obtain rfl : c' = c := Nat.add_right_cancel (place.symm.trans here)
  exact nonzero (cls.symm.trans (free inside))

end

/-! ### Allocation -/

theorem osize2bucket_fits {len b : Nat} (found : osize2bucket len = .ok b) :
    b < NUM_BUCKETS ∧ len ≤ capOf b := by
  rw [osize2bucket] at found
  split at found
  · rename_i buck first
    cases found
    obtain ⟨inside, fits, _⟩ := List.findIdx?_eq_some_iff_getElem.mp first
    refine ⟨inside, ?_⟩
    rw [capOf, List.getD_eq_getElem?_getD, List.getElem?_eq_getElem inside, Option.getD_some]
    exact of_decide_eq_true fits
  · cases found

/-- The heap after the first chunk of a list is taken. -/
def Heap.take (h : Heap) (b : Nat) (cls : UInt8) : Heap :=
  ((h.setBucket b (h.view.next (h.oBucket b))).zero (h.oBucket b) (capOf b)).setCls (h.oBucket b) cls

/-- The heap after a chunk is carved off. -/
def Heap.carve (h : Heap) (b : Nat) (cls : UInt8) : Heap :=
  ((({ h with oRamUsed := h.behind b % 65536 } : Heap).setBuck h.oRamUsed (UInt8.ofNat b)).setCls
    h.oRamUsed cls).zero (h.oRamUsed + HDR_SIZE) (capOf b)

section

variable {h h' : Heap} {live : Set Object} {chunks : List Nat} {p len b : Nat} {cls : UInt8}

/-- What `oalloc_try` can do. -/
theorem oallocTry_cases (returned : oallocTry h len cls = .ok (p, h')) :
    cls ≠ 0 ∧ ∃ b, osize2bucket len = .ok b ∧
      (h.oBucket b ≠ 0 ∧ p = h.oBucket b + HDR_SIZE ∧ h' = h.take b cls ∨
        h.oBucket b = 0 ∧ h.oRamEnd ≤ h.behind b % 65536 ∧ p = 0 ∧ h' = h ∨
        h.oBucket b = 0 ∧ h.behind b % 65536 < h.oRamEnd ∧ p = h.oRamUsed + HDR_SIZE ∧
          h' = h.carve b cls) := by
  rw [oallocTry] at returned
  split at returned
  · cases returned
  rename_i nonzero
  cases found : osize2bucket len with
  | error stop =>
    rw [found] at returned
    cases returned
  | ok b =>
    rw [found] at returned
    refine ⟨nonzero, b, rfl, ?_⟩
    by_cases empty : h.oBucket b = 0
    · by_cases full : h.oRamEnd ≤ h.behind b % 65536
      · have none : (.ok (0, h) : Octet (Nat × Heap)) = .ok (p, h') := by
          rw [← returned]
          show _ = ite _ _ _
          rw [if_neg (fun some => some empty)]
          exact (if_pos full).symm
        cases none
        exact .inr (.inl ⟨empty, full, rfl, rfl⟩)
      · have some : (.ok (h.oRamUsed + HDR_SIZE, h.carve b cls) : Octet (Nat × Heap)) =
            .ok (p, h') := by
          rw [← returned]
          show _ = ite _ _ _
          rw [if_neg (fun some => some empty)]
          exact (if_neg full).symm
        cases some
        exact .inr (.inr ⟨empty, Nat.not_le.mp full, rfl, rfl⟩)
    · have some : (.ok (h.oBucket b + HDR_SIZE, h.take b cls) : Octet (Nat × Heap)) =
          .ok (p, h') := by
        rw [← returned]
        exact (if_pos empty).symm
      cases some
      exact .inl ⟨empty, rfl, rfl⟩

/-- A chunk of the first bucket keeps its header's bucket, which is zero. -/
theorem Kept.take (kept : Kept h live chunks) (fits : len ≤ capOf 0) (nonzero : cls ≠ 0)
    (some : h.oBucket 0 ≠ 0) :
    Kept (h.take 0 cls) (insert ⟨h.oBucket 0 + HDR_SIZE, len, cls⟩ live) chunks ∧
      Granted (h.take 0 cls) (h.oBucket 0 + HDR_SIZE) len cls := by
  obtain ⟨member, kind, free⟩ := kept.stocked.head_free some
  generalize place : h.oBucket 0 = c at *
  have four : capOf 0 = 4 := rfl
  have header : HDR_SIZE = 2 := rfl
  have size := h.size_view c
  rw [kind] at size
  have written : (h.take 0 cls).memory = oputb (ozero h.memory c 4) (c + 1) cls := by
    rw [Heap.take, place]
    rfl
  have heads : (h.take 0 cls).oBucket = Function.update h.oBucket 0 (h.view.next c) := by
    rw [Heap.take, place]
    rfl
  have begins : (h.take 0 cls).oRamBegin = h.oRamBegin := rfl
  have uses : (h.take 0 cls).oRamUsed = h.oRamUsed := rfl
  have only : OnlyIn h (h.take 0 cls) c := by
    intro a outside
    rw [written, oputb_apply, if_neg (by omega), ozero_apply, if_neg (by omega)]
  have buck : (h.take 0 cls).buck c = h.buck c := by
    have before : h.buck c = 0 := by
      refine UInt8.toNat_inj.mp ?_
      rw [← Heap.kind_of_valid (kept.tiled.valid c member), kind]
      rfl
    rw [Heap.buck, written, oputb_apply, if_neg (by omega), ozero_apply, if_pos (by omega), before]
  have newCls : (h.take 0 cls).cls c = cls := by
    rw [Heap.cls, written, oputb_apply, if_pos rfl]
  obtain ⟨tiled, kinds⟩ := kept.tiledBy_of_onlyIn member only buck begins uses
  have fresh := kept.address_ne fun _ => free
  have frees : ∀ d ∈ chunks, ((h.take 0 cls).cls d = 0 ↔ h.cls d = 0 ∧ d ≠ c) := by
    intro d inside
    by_cases same : d = c
    · rw [same, newCls]
      exact iff_of_false nonzero fun both => both.2 rfl
    · rw [kept.cls_of_ne member only inside same]
      exact (and_iff_left same).symm
  refine ⟨⟨tiled, ?_, fun d inside free' i low high => ?_, ?_, fun d inside used => ?_,
    single_insert kept.single fresh⟩, ?_, ?_, ?_, fun i inside => ?_⟩
  · rw [heads, begins, uses, ← place]
    refine kept.stocked.take (place.symm ▸ some) (fun d inside => ?_) kinds
      (fun d inside differ => ?_) (place.symm ▸ frees)
    · rw [Heap.size_view, Heap.size_view, kinds d inside]
    · exact (only.view_of_ne kept.tiled.tiles member inside (place ▸ differ)
        (kept.tiled.kind_lt inside)).2.2
  · obtain ⟨before, differ⟩ := (frees d inside).mp free'
    rw [kinds d inside] at high
    exact kept.zero_of_ne member only inside differ before low high
  · rintro o (rfl | old)
    · refine ⟨c, member, rfl, newCls, nonzero, ?_⟩
      rw [kinds c member, kind]
      exact fits
    · obtain ⟨d, inside, here, before, notZero, large⟩ := kept.lives o old
      have differ : d ≠ c := by
        rintro rfl
        exact fresh o old here
      refine ⟨d, inside, here, ?_, notZero, ?_⟩
      · rw [kept.cls_of_ne member only inside differ, before]
      · rw [kinds d inside]
        exact large
  · by_cases same : d = c
    · exact ⟨_, Set.mem_insert _ _, same ▸ rfl⟩
    · rw [kept.cls_of_ne member only inside same] at used
      obtain ⟨o, old, here⟩ := kept.owned d inside used
      exact ⟨o, Set.mem_insert_of_mem _ old, here⟩
  · rw [Nat.add_sub_cancel, newCls]
  · rw [Nat.add_sub_cancel, kinds c member, kind]
    decide
  · rw [Nat.add_sub_cancel, kinds c member, kind]
    exact fits
  · rw [Nat.add_sub_cancel, kinds c member, kind, four] at inside
    rw [written, oputb_apply, if_neg (by omega), ozero_apply]
    split
    · rfl
    · refine kept.zero c member free i (by omega) ?_
      rw [kind]
      exact inside

/-- A chunk that is carved off becomes the last one. -/
theorem Kept.carve (kept : Kept h live chunks) (valid : b < NUM_BUCKETS) (fits : len ≤ capOf b)
    (nonzero : cls ≠ 0) (bounded : h.behind b < 65536) :
    Kept (h.carve b cls) (insert ⟨h.oRamUsed + HDR_SIZE, len, cls⟩ live) (chunks ++ [h.oRamUsed]) ∧
      Granted (h.carve b cls) (h.oRamUsed + HDR_SIZE) len cls := by
  have tiles := kept.tiled.tiles
  have positive := kept.tiled.positive
  have header : HDR_SIZE = 2 := rfl
  have written : (h.carve b cls).memory = ozero (oputb (oputb h.memory h.oRamUsed (UInt8.ofNat b))
      (h.oRamUsed + 1) cls) (h.oRamUsed + HDR_SIZE) (capOf b) := rfl
  have begins : (h.carve b cls).oRamBegin = h.oRamBegin := rfl
  have heads : (h.carve b cls).oBucket = h.oBucket := rfl
  have uses : (h.carve b cls).oRamUsed = h.oRamUsed + (capOf b + HDR_SIZE) :=
    Nat.mod_eq_of_lt bounded
  have before : ∀ a < h.oRamUsed, (h.carve b cls).memory a = h.memory a := by
    intro a low
    rw [written, ozero_apply, if_neg (by omega), oputb_apply, if_neg (by omega), oputb_apply,
      if_neg (by omega)]
  have newBuck : (h.carve b cls).buck h.oRamUsed = UInt8.ofNat b := by
    rw [Heap.buck, written, ozero_apply, if_neg (by omega), oputb_apply, if_neg (by omega),
      oputb_apply, if_pos rfl]
  have newCls : (h.carve b cls).cls h.oRamUsed = cls := by
    rw [Heap.cls, written, ozero_apply, if_neg (by omega), oputb_apply, if_pos rfl]
  have byte : (UInt8.ofNat b).toNat = b := by
    have small : b < 16 := valid
    rw [UInt8.toNat_ofNat']
    omega
  have newKind : (h.carve b cls).view.kind h.oRamUsed = b := by
    rw [Heap.kind_of_valid (newBuck.symm ▸ byte.symm ▸ valid), newBuck, byte]
  have newSize : (h.carve b cls).view.size h.oRamUsed = HDR_SIZE + capOf b := by
    rw [Heap.size_view, newKind]
  -- the old chunks are in front of the new one
  have same : ∀ d ∈ chunks, (∀ i < h.view.size d,
      (h.carve b cls).memory (d + i) = h.memory (d + i)) ∧ 6 ≤ h.view.size d := by
    intro d inside
    have within := tiles.within inside
    have large := (capOf_bounds (kept.tiled.kind_lt inside)).1
    have size := h.size_view d
    exact ⟨fun i short => before _ (by omega), by omega⟩
  have bucks : ∀ d ∈ chunks, (h.carve b cls).buck d = h.buck d := fun d inside =>
    (same d inside).1 0 (by have := (same d inside).2; omega)
  have classes : ∀ d ∈ chunks, (h.carve b cls).cls d = h.cls d := fun d inside =>
    (same d inside).1 1 (by have := (same d inside).2; omega)
  have links : ∀ d ∈ chunks, (h.carve b cls).view.next d = h.view.next d := fun d inside =>
    ogetw_congr ((same d inside).1 2 (by have := (same d inside).2; omega))
      ((same d inside).1 3 (by have := (same d inside).2; omega))
  have kinds : ∀ d ∈ chunks, (h.carve b cls).view.kind d = h.view.kind d := fun d inside =>
    congrArg (fun x : UInt8 => (x &&& BUCK_MASK).toNat) (bucks d inside)
  have sizes : ∀ d ∈ chunks, (h.carve b cls).view.size d = h.view.size d := by
    intro d inside
    rw [Heap.size_view, Heap.size_view, kinds d inside]
  have fresh := kept.address_ne (c := h.oRamUsed) fun inside => absurd inside tiles.last_not_mem
  have stocked : Stocked (h.carve b cls).view (h.carve b cls).oBucket
      (fun c => (h.carve b cls).cls c = 0) h.oRamBegin (chunks ++ [h.oRamUsed])
      (h.oRamUsed + (h.carve b cls).view.size h.oRamUsed) := by
    refine kept.stocked.carve sizes kinds (fun d inside _ => links d inside) (fun d inside => ?_)
      ?_ ?_
    · rw [classes d inside]
    · omega
    · rw [newCls]
      exact nonzero
  have place : h.oRamUsed + (h.carve b cls).view.size h.oRamUsed = (h.carve b cls).oRamUsed := by
    rw [newSize, uses, Nat.add_comm HDR_SIZE]
  rw [place] at stocked
  refine ⟨⟨⟨stocked.tiles, fun d inside => ?_, positive, ?_⟩, stocked,
    fun d inside free i low high => ?_, ?_, fun d inside used => ?_, single_insert kept.single fresh⟩,
    ?_, ?_, ?_, fun i inside => ?_⟩
  · rcases List.mem_append.mp inside with old | new
    · rw [bucks d old]
      exact kept.tiled.valid d old
    · rw [List.mem_singleton.mp new, newBuck, byte]
      exact valid
  · rw [uses]
    exact bounded
  · rcases List.mem_append.mp inside with old | new
    · rw [classes d old] at free
      rw [kinds d old] at high
      have size := h.size_view d
      rw [Nat.add_assoc, (same d old).1 _ (by omega), ← Nat.add_assoc]
      exact kept.zero d old free i low high
    · rw [List.mem_singleton.mp new, newCls] at free
      exact absurd free nonzero
  · rintro o (rfl | old)
    · refine ⟨h.oRamUsed, List.mem_append_right _ (List.mem_singleton_self _), rfl, newCls, nonzero,
        ?_⟩
      rw [newKind]
      exact fits
    · obtain ⟨d, inside, here, held, notZero, large⟩ := kept.lives o old
      refine ⟨d, List.mem_append_left _ inside, here, ?_, notZero, ?_⟩
      · rw [classes d inside, held]
      · rw [kinds d inside]
        exact large
  · rcases List.mem_append.mp inside with old | new
    · rw [classes d old] at used
      obtain ⟨o, owned, here⟩ := kept.owned d old used
      exact ⟨o, Set.mem_insert_of_mem _ owned, here⟩
    · rw [List.mem_singleton.mp new]
      exact ⟨_, Set.mem_insert _ _, rfl⟩
  · rw [Nat.add_sub_cancel, newCls]
  · rw [Nat.add_sub_cancel, newKind]
    exact valid
  · rw [Nat.add_sub_cancel, newKind]
    exact fits
  · rw [Nat.add_sub_cancel, newKind] at inside
    rw [written, ozero_apply, if_pos (by omega)]

/-- What a try that returns an object preserves. -/
theorem Kept.oallocTry (kept : Kept h live chunks)
    (returned : oallocTry h len cls = .ok (p, h')) (some : p ≠ 0)
    (careful : ∀ b, osize2bucket len = .ok b → (h.oBucket b ≠ 0 → b = 0) ∧
      (h.oBucket b = 0 → h.behind b % 65536 < h.oRamEnd → h.behind b < 65536)) :
    ∃ chunks', Kept h' (insert ⟨p, len, cls⟩ live) chunks' ∧ Granted h' p len cls := by
  obtain ⟨nonzero, b, found, ⟨list, rfl, rfl⟩ | ⟨_, _, rfl, _⟩ | ⟨empty, room, rfl, rfl⟩⟩ :=
    oallocTry_cases returned
  · obtain ⟨_, fits⟩ := osize2bucket_fits found
    obtain rfl := (careful b found).1 list
    exact ⟨chunks, kept.take fits nonzero list⟩
  · exact absurd rfl some
  · obtain ⟨valid, fits⟩ := osize2bucket_fits found
    exact ⟨chunks ++ [h.oRamUsed],
      kept.carve valid fits nonzero ((careful b found).2 empty room)⟩

/-! ### The other calls -/

/-- The chunk of an object that is freed is on the list, and nobody has it. -/
theorem Kept.free (kept : Kept h live chunks) {obj : Object} (owned : obj ∈ live) :
    Kept (ofree beyond h obj.address) (live \ {obj}) chunks := by
  obtain ⟨c, member, place, _⟩ := kept.lives obj owned
  have used : h.cls c ≠ 0 := by
    obtain ⟨c', _, place', cls, nonzero, _⟩ := kept.lives obj owned
    obtain rfl : c' = c := Nat.add_right_cancel (place'.symm.trans place)
    exact fun free => nonzero (cls.symm.trans free)
  have valid : ∀ d ∈ chunks, h.view.kind d < NUM_BUCKETS := fun _ => kept.tiled.kind_lt
  have word : h.oBucket (h.view.kind c) < 65536 := by
    by_cases empty : h.oBucket (h.view.kind c) = 0
    · omega
    · have inside := kept.tiled.tiles.within (kept.stocked.head_free empty).1
      have bounded := kept.tiled.bounded
      omega
  have released : ofree beyond h obj.address =
      h.release c (h.view.kind c) (capOf (h.view.kind c)) := by
    have raw := Heap.kind_of_valid (kept.tiled.valid c member)
    rw [place, ofree, Nat.add_sub_cancel, Heap.cap_of_valid beyond h (kept.tiled.valid c member),
      ← raw]
    rfl
  rw [released]
  have releases := Heap.release_releases (valid c member) word
  have buck := Heap.buck_release (h := h) (c := c) (h.view.kind c) (capOf (h.view.kind c))
  generalize h.release c (h.view.kind c) (capOf (h.view.kind c)) = h' at releases buck ⊢
  have only := releases.outside
  obtain ⟨tiled, kinds⟩ := kept.tiledBy_of_onlyIn member only buck releases.begins releases.uses
  have frees : ∀ d ∈ chunks, (h'.cls d = 0 ↔ d = c ∨ h.cls d = 0) := by
    intro d inside
    by_cases same : d = c
    · exact iff_of_true (same ▸ releases.cls) (.inl same)
    · rw [kept.cls_of_ne member only inside same]
      exact (or_iff_right same).symm
  refine ⟨tiled, releases.stocked kept.stocked valid kept.tiled.positive member used frees,
    fun d inside free i low high => ?_, fun o held => ?_, fun d inside used' => ?_,
    fun o held o' held' => kept.single o held.1 o' held'.1⟩
  · rw [kinds d inside] at high
    by_cases same : d = c
    · rw [same] at high ⊢
      exact releases.rest i low high
    · rw [kept.cls_of_ne member only inside same] at free
      exact kept.zero_of_ne member only inside same free low high
  · obtain ⟨d, inside, here, cls, nonzero, large⟩ := kept.lives o held.1
    have differ : d ≠ c := by
      rintro rfl
      exact held.2 (kept.single o held.1 obj owned (here.trans place.symm))
    refine ⟨d, inside, here, ?_, nonzero, ?_⟩
    · rw [kept.cls_of_ne member only inside differ, cls]
    · rw [kinds d inside]
      exact large
  · have differ : d ≠ c := fun same => used' (same ▸ releases.cls)
    rw [kept.cls_of_ne member only inside differ] at used'
    obtain ⟨o, held, here⟩ := kept.owned d inside used'
    refine ⟨o, ⟨held, ?_⟩, here⟩
    rintro rfl
    exact differ (Nat.add_right_cancel (here.symm.trans place))

/-- If the roots are null, nothing outlives a collection; if there are none, everything does. -/
theorem Kept.ogc (kept : Kept h live chunks) (null : NullRoots h) {rounds : Nat}
    (returned : ogc beyond rounds h = .ok h') :
    Kept h' (Owned.kept ⟨h, live⟩) chunks ∧ h'.oRamUsed = h.oRamUsed ∧ h'.oRamEnd = h.oRamEnd := by
  cases set : h.oMarkRoots with
  | none =>
    have same : h' = h := by
      rw [Octet.ogc, set] at returned
      cases returned
      rfl
    have all : Owned.kept ⟨h, live⟩ = live := by
      ext o
      refine ⟨fun held => held.1, fun held => ⟨held, fun roots some => ?_⟩⟩
      rw [set] at some
      cases some
    rw [all, same]
    exact ⟨kept, rfl, rfl⟩
  | some roots =>
    have nothing : Owned.kept ⟨h, live⟩ = ∅ := by
      refine Set.eq_empty_iff_forall_notMem.mpr fun o held => ?_
      exact not_reached_of_null (null roots set) _ (held.2 roots set)
    have swept := kept.tiled.swept_of_ogc beyond set returned
    have ends : ∀ c ∈ chunks, c < h.oRamUsed := by
      intro c member
      have inside := kept.tiled.tiles.within member
      omega
    rw [nothing]
    refine ⟨⟨⟨swept.stocked.tiles, fun c member => (swept.clear c member (ends c member)).1,
      swept.begins ▸ kept.tiled.positive, swept.uses ▸ kept.tiled.bounded⟩, ?_,
      fun c member _ => (swept.clear c member (ends c member)).2.2, fun o held => ?_,
      fun c member used => ?_, fun o held => ?_⟩, swept.uses, swept.ends⟩
    · refine swept.stocked.congr (fun _ _ => rfl) (fun _ _ => rfl) (fun _ _ _ => rfl)
        fun c member => ?_
      exact iff_of_true (swept.clear c member (ends c member)).2.1 (ends c member)
    · exact absurd held (Set.notMem_empty o)
    · exact absurd (swept.clear c member (ends c member)).2.1 used
    · exact absurd held (Set.notMem_empty o)

/-- The owner writes in its object. -/
theorem Kept.write (kept : Kept h live chunks) {obj : Object} (owned : obj ∈ live) {i : Nat}
    (inside : i < capOf (h.view.kind (obj.address - HDR_SIZE))) (byte : UInt8) :
    Kept { h with memory := oputb h.memory (obj.address + i) byte } live chunks := by
  obtain ⟨c, member, place, held, nonzero, _⟩ := kept.lives obj owned
  have header : HDR_SIZE = 2 := rfl
  rw [place, Nat.add_sub_cancel] at inside
  rw [place]
  have size := h.size_view c
  have elsewhere : ∀ a, a ≠ c + HDR_SIZE + i →
      oputb h.memory (c + HDR_SIZE + i) byte a = h.memory a := fun a other =>
    (oputb_apply _ _ _ _).trans (if_neg other)
  generalize changed : ({ h with memory := oputb h.memory (c + HDR_SIZE + i) byte } : Heap) = h'
  have memory : ∀ a, a ≠ c + HDR_SIZE + i → h'.memory a = h.memory a := changed ▸ elsewhere
  have only : OnlyIn h h' c := fun a outside => memory a (by omega)
  have heads : h'.oBucket = h.oBucket := changed ▸ rfl
  have begins : h'.oRamBegin = h.oRamBegin := changed ▸ rfl
  have uses : h'.oRamUsed = h.oRamUsed := changed ▸ rfl
  have buck : h'.buck c = h.buck c := memory c (by omega)
  have cls : ∀ d ∈ chunks, h'.cls d = h.cls d := by
    intro d inside
    by_cases same : d = c
    · exact same ▸ memory (c + 1) (by omega)
    · exact kept.cls_of_ne member only inside same
  have other : ∀ d, h.cls d = 0 → d ≠ c := by
    rintro d free rfl
    exact nonzero (held.symm.trans free)
  obtain ⟨tiled, kinds⟩ := kept.tiledBy_of_onlyIn member only buck begins uses
  refine ⟨tiled, ?_, fun d inside free j low high => ?_, fun o old => ?_, fun d inside used => ?_,
    kept.single⟩
  · rw [heads, begins, uses]
    refine kept.stocked.congr (fun d inside => ?_) kinds (fun d inside free => ?_)
      fun d inside => ?_
    · rw [Heap.size_view, Heap.size_view, kinds d inside]
    · exact (only.view_of_ne kept.tiled.tiles member inside (other d free)
        (kept.tiled.kind_lt inside)).2.2
    · rw [cls d inside]
  · rw [cls d inside] at free
    rw [kinds d inside] at high
    exact kept.zero_of_ne member only inside (other d free) free low high
  · obtain ⟨d, inside, here, before, notZero, large⟩ := kept.lives o old
    refine ⟨d, inside, here, (cls d inside).trans before, notZero, ?_⟩
    rw [kinds d inside]
    exact large
  · rw [cls d inside] at used
    exact kept.owned d inside used

end

/-! ### Runs -/

section

variable {beyond rounds} {s : Owned} {h h' : Heap} {chunks : List Nat} {len p : Nat} {cls : UInt8}

/-- `oalloc` returns what the first try does, or what the second one does after a collection. -/
theorem oalloc_cases (returned : oalloc beyond rounds h len cls = .ok (p, h')) :
    p ≠ 0 ∧ (oallocTry h len cls = .ok (p, h') ∨
      oallocTry h len cls = .ok (0, h) ∧
        ∃ collected, ogc beyond rounds h = .ok collected ∧
          oallocTry collected len cls = .ok (p, h')) := by
  rw [oalloc] at returned
  cases first : oallocTry h len cls with
  | error stop =>
    rw [first] at returned
    cases returned
  | ok result =>
    obtain ⟨q, between⟩ := result
    rw [first] at returned
    by_cases none : q = 0
    · obtain rfl := none
      have same : between = h := by
        obtain ⟨_, b, _, ⟨_, wrong, _⟩ | ⟨_, _, _, same⟩ | ⟨_, _, wrong, _⟩⟩ :=
          oallocTry_cases first
        · exact Nat.noConfusion wrong
        · exact same
        · exact Nat.noConfusion wrong
      obtain rfl := same
      dsimp only [bind, Except.bind] at returned
      rw [if_pos rfl] at returned
      cases swept : ogc beyond rounds between with
      | error stop =>
        rw [swept] at returned
        cases returned
      | ok collected =>
        rw [swept] at returned
        dsimp only at returned
        cases second : oallocTry collected len cls with
        | error stop =>
          rw [second] at returned
          cases returned
        | ok result =>
          rw [second] at returned
          dsimp only at returned
          split at returned
          · cases returned
          · rename_i some
            cases returned
            exact ⟨some, .inr ⟨rfl, collected, rfl, second⟩⟩
    · dsimp only [bind, Except.bind, pure, Except.pure] at returned
      rw [if_neg none, if_neg none] at returned
      cases returned
      exact ⟨none, .inl rfl⟩

/-- What `oalloc` returns, and what is kept, if the condition is met. -/
theorem Kept.oalloc (kept : Kept s.heap s.live chunks) (careful : Careful s (.alloc len cls))
    (returned : oalloc beyond rounds s.heap len cls = .ok (p, h')) :
    ∃ chunks', Kept h' (insert ⟨p, len, cls⟩ (s.spared len cls)) chunks' ∧
      Granted h' p len cls := by
  obtain ⟨some, first | ⟨failed, collected, swept, second⟩⟩ := oalloc_cases returned
  · have all : s.spared len cls = s.live := by
      ext o
      refine ⟨fun held => held.1, fun held => ⟨held, fun needs => ?_⟩⟩
      obtain ⟨between, failed⟩ := needs
      rw [first] at failed
      cases failed
      exact absurd rfl some
    rw [all]
    exact kept.oallocTry first some fun b found =>
      ⟨(careful b found).1, fun empty => ((careful b found).2 empty).1⟩
  · obtain ⟨_, b, found, ⟨_, wrong, _⟩ | ⟨empty, full, _⟩ | ⟨_, _, wrong, _⟩⟩ :=
      oallocTry_cases failed
    · exact Nat.noConfusion wrong
    · obtain ⟨rfl, null⟩ := ((careful b found).2 empty).2 full
      have all : s.spared len cls = s.kept := by
        ext o
        exact ⟨fun held => held.2 ⟨_, failed⟩, fun held => ⟨held.1, fun _ => held⟩⟩
      rw [all]
      obtain ⟨after, uses, ends⟩ := kept.ogc beyond null swept
      refine after.oallocTry second some fun b' found' => ?_
      obtain rfl : b' = 0 := Except.ok.inj (found'.symm.trans found)
      refine ⟨fun _ => rfl, fun _ room => ?_⟩
      have behind : collected.behind 0 = s.heap.behind 0 :=
        congrArg (fun used => used + (capOf 0 + HDR_SIZE)) uses
      rw [behind, ends] at room
      exact absurd full (Nat.not_le.mpr room)
    · exact Nat.noConfusion wrong

/-- One call preserves the invariant. -/
theorem Kept.step {s' : Owned} {call : Call} (kept : ∃ chunks, Kept s.heap s.live chunks)
    (careful : Careful s call) (stepped : step beyond rounds s call = some s') :
    ∃ chunks, Kept s'.heap s'.live chunks := by
  obtain ⟨chunks, kept⟩ := kept
  cases call with
  | alloc len cls =>
    rw [Octet.step] at stepped
    split at stepped
    · rename_i p h returned
      cases stepped
      obtain ⟨chunks', after, _⟩ := kept.oalloc careful returned
      exact ⟨chunks', after⟩
    · cases stepped
  | free obj =>
    rw [Octet.step] at stepped
    split at stepped
    · rename_i owned
      cases stepped
      exact ⟨chunks, kept.free beyond owned⟩
    · cases stepped
  | gc =>
    rw [Octet.step] at stepped
    split at stepped
    · rename_i h returned
      cases stepped
      exact ⟨chunks, (kept.ogc beyond careful returned).1⟩
    · cases stepped
  | write obj i b =>
    rw [Octet.step] at stepped
    split at stepped
    · rename_i inside
      cases stepped
      exact ⟨chunks, kept.write inside.1 inside.2 b⟩
    · cases stepped
  | setRoots roots =>
    cases stepped
    exact ⟨chunks, ⟨kept.tiled.tiles, kept.tiled.valid, kept.tiled.positive, kept.tiled.bounded⟩,
      ⟨kept.stocked.tiles, kept.stocked.shelf⟩, kept.zero, kept.lives, kept.owned, kept.single⟩

/-- A heap that has just been set up. -/
theorem Kept.oinit (memory : Nat → UInt8) {begin_ : Nat} (end_ : Nat)
    (roots : Option (List Nat)) (positive : 0 < begin_) (word : begin_ < 65536) :
    Kept (oinit memory begin_ end_ roots) ∅ [] := by
  refine ⟨⟨rfl, fun c member => ?_, positive, word⟩, .of_not_free rfl (fun _ => rfl) fun c member => ?_,
    fun c member => ?_, fun o held => ?_, fun c member => ?_, fun o held => ?_⟩
  · exact absurd member List.not_mem_nil
  · exact absurd member List.not_mem_nil
  · exact absurd member List.not_mem_nil
  · exact absurd held (Set.notMem_empty o)
  · exact absurd member List.not_mem_nil
  · exact absurd held (Set.notMem_empty o)

end

/-- In every run that meets the condition, the heap is sound, and what an allocation that meets the
condition returns is what was asked for. -/
theorem history_sound (beyond : (Nat → UInt8) → Nat → Nat) (rounds : Nat) (memory : Nat → UInt8)
    (begin_ end_ : Nat) (roots : Option (List Nat)) (positive : 0 < begin_) (word : begin_ < 65536)
    (calls : List Call) (s : Owned)
    (careful : Meets (step beyond rounds) Careful ⟨oinit memory begin_ end_ roots, ∅⟩ calls)
    (reached : run (step beyond rounds) ⟨oinit memory begin_ end_ roots, ∅⟩ calls = some s) :
    Sound s ∧ ∀ len cls p h', Careful s (.alloc len cls) →
      oalloc beyond rounds s.heap len cls = .ok (p, h') → Granted h' p len cls := by
  obtain ⟨chunks, kept⟩ := invariant_of_run (fun s => ∃ chunks, Kept s.heap s.live chunks)
    (fun _ _ _ => Kept.step) ⟨[], Kept.oinit memory end_ roots positive word⟩ careful reached
  refine ⟨kept.sound, fun len cls p h' careful' returned => ?_⟩
  obtain ⟨_, _, granted⟩ := kept.oalloc careful' returned
  exact granted

section

variable {beyond rounds} {s : Owned}

theorem step_alloc {len p : Nat} {cls : UInt8} {h : Heap}
    (returned : oalloc beyond rounds s.heap len cls = .ok (p, h)) :
    step beyond rounds s (.alloc len cls) = some ⟨h, insert ⟨p, len, cls⟩ (s.spared len cls)⟩ := by
  rw [step, returned]

theorem step_free {obj : Object} (owned : obj ∈ s.live) :
    step beyond rounds s (.free obj) =
      some ⟨ofree beyond s.heap obj.address, s.live \ {obj}⟩ := if_pos owned

theorem step_gc {h : Heap} (returned : ogc beyond rounds s.heap = .ok h) :
    step beyond rounds s .gc = some ⟨h, s.kept⟩ := by
  rw [step, returned]

theorem step_write {obj : Object} {i : Nat} (owned : obj ∈ s.live)
    (inside : i < capOf (s.heap.view.kind (obj.address - HDR_SIZE))) (b : UInt8) :
    step beyond rounds s (.write obj i b) =
      some ⟨{ s.heap with memory := oputb s.heap.memory (obj.address + i) b }, s.live⟩ :=
  if_pos ⟨owned, inside⟩

/-- For the bucket of the size, the condition can be read off the heap. -/
theorem careful_alloc {len b : Nat} (cls : UInt8) (bucket : osize2bucket len = .ok b)
    (first : s.heap.oBucket b ≠ 0 → b = 0) (inside : s.heap.behind b < 65536)
    (room : s.heap.behind b < s.heap.oRamEnd) : Careful s (.alloc len cls) := by
  intro b' found
  obtain rfl : b = b' := Except.ok.inj (bucket.symm.trans found)
  refine ⟨first, fun _ => ⟨fun _ => inside, fun full => ?_⟩⟩
  rw [Nat.mod_eq_of_lt inside] at full
  exact absurd room (Nat.not_lt.mpr full)

end

/-- What `oalloc` returns, for a heap where it returns. -/
def allocated (h : Heap) (len : Nat) (cls : UInt8) : Nat × Heap :=
  (oalloc (fun _ _ => 0) 8 h len cls).toOption.getD (0, h)

theorem oalloc_allocated {h : Heap} {len p : Nat} {cls : UInt8}
    (returned : (oalloc (fun _ _ => 0) 8 h len cls).toOption.map Prod.fst = some p) :
    oalloc (fun _ _ => 0) 8 h len cls = .ok (p, (allocated h len cls).2) := by
  rw [allocated]
  cases outcome : oalloc (fun _ _ => 0) 8 h len cls with
  | error stop =>
    rw [outcome] at returned
    cases returned
  | ok result =>
    rw [outcome] at returned
    obtain rfl : result.1 = p := Option.some.inj returned
    rfl

theorem not_needsRoom {h : Heap} {len : Nat} {cls : UInt8}
    (tried : ((oallocTry h len cls).toOption.map Prod.fst).getD 0 ≠ 0) : ¬NeedsRoom h len cls := by
  rintro ⟨h', failed⟩
  rw [failed] at tried
  exact tried rfl

def firstHeap : Heap := (allocated (oinit (fun _ => 0) 0x1000 0x2000 (some [])) 4 1).2

def secondHeap : Heap := (allocated firstHeap 10 2).2

def freedHeap : Heap := ofree (fun _ _ => 0) secondHeap 0x1002

def reusedHeap : Heap := (allocated freedHeap 3 20).2

def writtenHeap : Heap := { reusedHeap with memory := oputb reusedHeap.memory (0x1002 + 0) 0x7F }

def rootedHeap : Heap :=
  { writtenHeap with oMarkRoots := writtenHeap.oMarkRoots.map fun _ => [0] }

/-- Two objects are allocated, the first is freed and taken again, and written. Then both are
collected, and one more is allocated. -/
def busyCalls : List Call :=
  [.alloc 4 1, .alloc 10 2, .free ⟨0x1002, 4, 1⟩, .alloc 3 20, .write ⟨0x1002, 3, 20⟩ 0 0x7F,
    .setRoots [0], .gc, .alloc 4 3]

section

variable {s : Owned} {h : Heap}

/-- An allocation that returns meets the condition if there is room in its bucket's chunks. -/
theorem takes_alloc (len b p : Nat) (cls : UInt8) (here : s.heap = h)
    (bucket : osize2bucket len = .ok b) (first : h.oBucket b ≠ 0 → b = 0)
    (inside : h.behind b < 65536) (room : h.behind b < h.oRamEnd)
    (returned : (oalloc (fun _ _ => 0) 8 h len cls).toOption.map Prod.fst = some p) :
    ∃ next, step (fun _ _ => 0) 8 s (.alloc len cls) = some next ∧ Careful s (.alloc len cls) ∧
      next.heap = (allocated h len cls).2 ∧ next.live = insert ⟨p, len, cls⟩ (s.spared len cls) := by
  subst here
  exact ⟨_, step_alloc (oalloc_allocated returned), careful_alloc cls bucket first inside room, rfl,
    rfl⟩

theorem takes_gc (here : s.heap = h) (roots : h.oMarkRoots = some [0])
    (returned : (ogc (fun _ _ => 0) 8 h).isOk = true) :
    ∃ next, step (fun _ _ => 0) 8 s .gc = some next ∧ Careful s .gc ∧
      next.heap = (ogc (fun _ _ => 0) 8 h).toOption.getD h ∧ next.live = ∅ := by
  subst here
  obtain ⟨next, outcome⟩ : ∃ next, ogc (fun _ _ => 0) 8 s.heap = .ok next := by
    cases outcome : ogc (fun _ _ => 0) 8 s.heap with
    | error stop =>
      rw [outcome] at returned
      cases returned
    | ok next => exact ⟨next, rfl⟩
  refine ⟨⟨next, s.kept⟩, step_gc outcome, fun found set => ?_, ?_, ?_⟩
  · obtain rfl : [0] = found := Option.some.inj (roots.symm.trans set)
    decide
  · rw [outcome]
    rfl
  · refine Set.eq_empty_of_forall_notMem fun o kept => ?_
    exact not_reached_of_null (by decide) _ (kept.2 [0] roots)

end

/-- Of all the objects, the last one is left. -/
theorem sound_collectedRun : ∃ s,
    run (step (fun _ _ => 0) 8) ⟨oinit (fun _ => 0) 0x1000 0x2000 (some []), ∅⟩ busyCalls =
        some s ∧
      s.live = {⟨0x1002, 4, 3⟩} ∧ Sound s := by
  obtain ⟨s₁, step₁, careful₁, heap₁, live₁⟩ := takes_alloc 4 0 0x1002 1
    (s := ⟨oinit (fun _ => 0) 0x1000 0x2000 (some []), ∅⟩) rfl rfl (by decide +kernel)
    (by decide +kernel) (by decide +kernel) (by decide +kernel)
  obtain ⟨s₂, step₂, careful₂, heap₂, live₂⟩ := takes_alloc 10 2 0x1008 2 heap₁ rfl
    (by decide +kernel) (by decide +kernel) (by decide +kernel) (by decide +kernel)
  have owned₂ : ⟨0x1002, 4, 1⟩ ∈ s₂.live := by
    rw [live₂]
    refine Set.mem_insert_of_mem _ ⟨live₁ ▸ Set.mem_insert _ _, fun full => ?_⟩
    rw [heap₁] at full
    exact absurd full (not_needsRoom (by decide +kernel))
  have step₃ : step (fun _ _ => 0) 8 s₂ (.free ⟨0x1002, 4, 1⟩) = some _ := step_free owned₂
  rw [heap₂] at step₃
  obtain ⟨s₄, step₄, careful₄, heap₄, live₄⟩ := takes_alloc 3 0 0x1002 20
    (s := ⟨freedHeap, s₂.live \ {⟨0x1002, 4, 1⟩}⟩) (h := freedHeap) rfl rfl (fun _ => rfl)
    (by decide +kernel) (by decide +kernel) (by decide +kernel)
  have owned₄ : ⟨0x1002, 3, 20⟩ ∈ s₄.live := live₄ ▸ Set.mem_insert _ _
  have inside₄ : 0 < capOf (s₄.heap.view.kind (0x1002 - HDR_SIZE)) := by
    rw [heap₄]
    decide +kernel
  have step₅ : step (fun _ _ => 0) 8 s₄ (.write ⟨0x1002, 3, 20⟩ 0 0x7F) = some _ :=
    step_write owned₄ inside₄ 0x7F
  rw [heap₄] at step₅
  obtain ⟨s₇, step₇, careful₇, heap₇, live₇⟩ := takes_gc (s := ⟨rootedHeap, s₄.live⟩)
    (h := rootedHeap) rfl (by decide +kernel) (by decide +kernel)
  obtain ⟨s₈, step₈, careful₈, -, live₈⟩ := takes_alloc 4 0 0x1002 3 heap₇ rfl
    (fun _ => rfl) (by decide +kernel) (by decide +kernel) (by decide +kernel)
  have spared : s₇.spared 4 3 = ∅ :=
    Set.eq_empty_of_forall_notMem fun o kept => Set.notMem_empty o (live₇ ▸ kept.1)
  have step₆ : step (fun _ _ => 0) 8 ⟨writtenHeap, s₄.live⟩ (.setRoots [0]) =
      some ⟨rootedHeap, s₄.live⟩ := rfl
  obtain ⟨careful, reached⟩ :
      Meets (step (fun _ _ => 0) 8) Careful ⟨oinit (fun _ => 0) 0x1000 0x2000 (some []), ∅⟩
        busyCalls ∧
      run (step (fun _ _ => 0) 8) ⟨oinit (fun _ => 0) 0x1000 0x2000 (some []), ∅⟩ busyCalls =
        some s₈ :=
    meets_run_cons step₁ careful₁ <| meets_run_cons step₂ careful₂ <|
      meets_run_cons step₃ trivial <| meets_run_cons step₄ careful₄ <|
      meets_run_cons step₅ trivial <| meets_run_cons step₆ trivial <|
      meets_run_cons step₇ careful₇ <| meets_run_cons step₈ careful₈ ⟨trivial, run_nil _⟩
  refine ⟨_, reached, ?_, (history_sound _ 8 _ 0x1000 0x2000 (some []) (by decide) (by decide)
    busyCalls _ careful reached).1⟩
  rw [live₈, spared, insert_empty_eq]

/-- The same object is allocated, freed and allocated again, and its header has lost its bucket. -/
theorem not_sound_reused : ∃ s,
    run (step (fun _ _ => 0) 0) ⟨oinit (fun _ => 0) 0x1000 0x2000 none, ∅⟩
      [.alloc 5 1, .free ⟨0x1002, 5, 1⟩, .alloc 5 1] = some s ∧ ¬Sound s := by
  refine ⟨_, run_cons_eq_some.mpr ⟨_, step_alloc rfl, run_cons_eq_some.mpr ⟨_, step_free ?_,
    run_cons_eq_some.mpr ⟨_, step_alloc rfl, rfl⟩⟩⟩, ?_⟩
  · exact Set.mem_insert _ _
  · rintro ⟨chunks, -, -, fits, -⟩
    obtain ⟨c, -, place, -, large⟩ := fits ⟨0x1002, 5, 1⟩ (Set.mem_insert _ _)
    have same : 0x1000 + HDR_SIZE = c + HDR_SIZE := place
    obtain rfl := Nat.add_right_cancel same
    exact absurd large (by decide +kernel)

end Frobio.Octet
