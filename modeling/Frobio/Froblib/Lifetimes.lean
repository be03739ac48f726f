/-
This file is about the life of a heap of `froblib/malloc.c`: blocks are allocated, written,
reallocated and freed in any order. It shows that the blocks stay apart and the free lists
stay true as long as the addresses do not wrap around: `Malloc` adds the size of a block to
`heap_here`, and the size of a page to `heap_max`, in words.

The kernel either grants at least as much memory as it is asked for, or reports an error.
-/

import Frobio.Lib.Run
import Frobio.Froblib.Blocks

namespace Frobio.Froblib

open Arena Run

/-! ### Heaps and their blocks -/

/-- A block that was carved off, with the address that `Malloc` returned for it. -/
@[ext] structure Block where
  address : Word
  bucket : Fin NBUCKETS

/-- A block that is live, with the size that it was asked for. -/
@[ext] structure Object extends Block where
  len : Word

/-- A heap, the blocks that its owner has, and those that it has freed. -/
structure Owned where
  heap : Heap
  live : Set Object
  freed : Set Block

/-- The calls, and what the owner writes. A null pointer is no object. -/
inductive Call
  | malloc (n : Word)
  | reAlloc (p : Option Object) (n : Word)
  | free (p : Option Object)
  | write (o : Object) (i : Nat) (byte : UInt8)

/-- The owner gets a block, which may have been freed before. -/
def Owned.gain (s : Owned) (heap : Heap) (p n : Word) : Owned :=
  ⟨heap, insert ⟨⟨p, bucketOf n⟩, n⟩ s.live, s.freed \ {⟨p, bucketOf n⟩}⟩

/-- The owner gives a block back. -/
def Owned.lose (s : Owned) (heap : Heap) (o : Object) : Owned :=
  ⟨heap, s.live \ {o}, insert o.toBlock s.freed⟩

variable (kernel : Kernel) (fuel : Nat)

open Classical in
/-- One call. What does not return a block, or is not the owner's to do, has no next state. -/
noncomputable def step (s : Owned) : Call → Option Owned
  | .malloc n | .reAlloc none n =>
    match Malloc kernel fuel s.heap n with
    | (heap, .block p) => some (s.gain heap p n)
    | _ => none
  | .reAlloc (some o) n =>
    if o ∈ s.live then
      match ReAlloc kernel fuel s.heap o.address n with
      | (heap, .block z) =>
        -- the block is kept if it is large enough
        if z = o.address then some ⟨heap, insert ⟨o.toBlock, n⟩ (s.live \ {o}), s.freed⟩
        else some ((s.gain heap z n).lose heap o)
      | _ => none
    else none
  | .free none => some s
  | .free (some o) =>
    if o ∈ s.live then (Free s.heap o.address).map fun heap => s.lose heap o else none
  | .write o i byte =>
    if o ∈ s.live ∧ i < capOf o.bucket then
      some { s with heap := { s.heap with
        ram := putByte s.heap.ram (o.address + UInt16.ofNat i) byte } }
    else none

/-- Each live block lies with its header between `heap_min` and `heap_max`, has its capacity in its
header and is as large as it was asked to be, no two of them meet, and the list of each bucket has
the blocks of the bucket that were freed, each of them once. -/
structure Sound (s : Owned) : Prop where
  inside : ∀ o ∈ s.live, s.heap.heap_min.toNat + headSize.toNat ≤ o.address.toNat ∧
    o.address.toNat + capOf o.bucket ≤ s.heap.heap_max.toNat
  large : ∀ o ∈ s.live, (capacity s.heap o.address).toNat = capOf o.bucket ∧
    o.len.toNat ≤ capOf o.bucket
  apart : ∀ o ∈ s.live, ∀ o' ∈ s.live, o ≠ o' →
    o.address.toNat + capOf o.bucket + headSize.toNat ≤ o'.address.toNat ∨
      o'.address.toNat + capOf o'.bucket + headSize.toNat ≤ o.address.toNat
  lists : ∀ b, ∃ list, Chain (fun c => wordAt s.heap.ram (c + 1)) (heads s.heap b) list ∧
    list.Nodup ∧
    ∀ c, c ∈ list ↔ ∃ f ∈ s.freed, f.bucket = b ∧ f.address.toNat = c + headSize.toNat

/-- The block that `Malloc` returns is large enough and zero. -/
def Granted (heap : Heap) (p n : Word) : Prop :=
  n ≤ capacity heap p ∧ ∀ i < (capacity heap p).toNat, byteAt heap.ram (p.toNat + i) = 0

/-- The block that `ReAlloc` returns is large enough and begins like the old one. -/
def Moved (before after : Heap) (o : Object) (z n : Word) : Prop :=
  n ≤ capacity after z ∧ ∀ i < min (capOf o.bucket) n.toNat,
    byteAt after.ram (z.toNat + i) = byteAt before.ram (o.address.toNat + i)

/-! ### The condition -/

/-- As long as the block does not fit, one more page ends before the end of the addresses. -/
def Grows : Nat → Heap → Word → Word → Prop
  | 0, _, _, _ => True
  | fuel + 1, heap, n, cap =>
    heap.heap_max < heap.heap_here + (cap + headSize) →
      heap.heap_max.toNat + 0x2000 < 65536 ∧ Grows fuel (extend kernel heap n cap) n cap

/-- The kernel says where the heap begins. A block that is carved off ends before the end of the
addresses. -/
def Fits (heap : Heap) (n : Word) : Prop :=
  (heap.heap_max = 0 → (started kernel heap n).heap_min ≠ 0) ∧
  ((started kernel heap n).buck_freelist (bucketOf n) = 0 →
    (started kernel heap n).heap_here.toNat + (headSize.toNat + capOf (bucketOf n)) < 65536 ∧
    Grows kernel fuel (started kernel heap n) n (UInt16.ofNat (capOf (bucketOf n))))

def Careful (s : Owned) : Call → Prop
  | .malloc n | .reAlloc none n => n ≤ 16384 ∧ Fits kernel fuel s.heap n
  | .reAlloc (some o) n => capOf o.bucket < n.toNat → n ≤ 16384 ∧ Fits kernel fuel s.heap n
  | .free _ | .write .. => True

/-! ### The invariant -/

def Freed (freed : Set Block) (c : Nat) : Prop := ∃ f ∈ freed, f.address.toNat = c + headSize.toNat

structure Kept (heap : Heap) (live : Set Object) (freed : Set Block)
    (buckets : Nat → Fin NBUCKETS) (chunks : List Nat) : Prop where
  positive : 0 < heap.heap_min.toNat
  ordered : heap.heap_here.toNat ≤ heap.heap_max.toNat
  stocked : Stocked (view heap.ram buckets) (heads heap) (Freed freed) heap.heap_min.toNat chunks
    heap.heap_here.toNat
  lives : ∀ o ∈ live, ∃ c ∈ chunks, o.address.toNat = c + headSize.toNat ∧ buckets c = o.bucket ∧
    ¬Freed freed c ∧ wordAt heap.ram (c + 3) = capOf o.bucket ∧ o.len.toNat ≤ capOf o.bucket
  freeds : ∀ f ∈ freed, ∃ c ∈ chunks, f.address.toNat = c + headSize.toNat ∧ buckets c = f.bucket
  single : ∀ o ∈ live, ∀ o' ∈ live, o.address = o'.address → o = o'

section

variable {heap heap' : Heap} {live : Set Object} {freed : Set Block}
  {buckets : Nat → Fin NBUCKETS} {chunks : List Nat} {c : Nat} {n p : Word}

theorem Kept.within (kept : Kept heap live freed buckets chunks) (member : c ∈ chunks) :
    heap.heap_min.toNat ≤ c ∧
      c + (headSize.toNat + capOf (buckets c)) ≤ heap.heap_here.toNat := by
  have inside := kept.stocked.tiles.within member
  exact ⟨inside.1, inside.2.2⟩

theorem Kept.here_lt (kept : Kept heap live freed buckets chunks) :
    heap.heap_here.toNat ≤ 65535 :=
  Nat.le_trans kept.ordered (Nat.le_of_lt_succ heap.heap_max.toNat_lt)

/-- The bounds of a heap that has blocks are known. -/
theorem Kept.known (kept : Kept heap live freed buckets chunks) : heap.heap_max ≠ 0 := by
  intro none
  have ordered := kept.ordered
  have positive := kept.positive
  have bounds := kept.stocked.tiles.le
  rw [none] at ordered
  have zero : (0 : Word).toNat = 0 := rfl
  omega

/-- What is kept is what is to be shown. -/
theorem Kept.sound (kept : Kept heap live freed buckets chunks) : Sound ⟨heap, live, freed⟩ := by
  have header : headSize.toNat = 6 := rfl
  have limit := kept.here_lt
  refine ⟨fun o member => ?_, fun o member => ?_, fun o member o' member' differ => ?_, fun b => ?_⟩
  · obtain ⟨c, listed, place, bucket, _⟩ := kept.lives o member
    have within := kept.within listed
    have ordered := kept.ordered
    rw [bucket] at within
    show heap.heap_min.toNat + _ ≤ _ ∧ _ ≤ heap.heap_max.toNat
    omega
  · obtain ⟨c, listed, place, _, _, held, len⟩ := kept.lives o member
    have within := kept.within listed
    refine ⟨?_, len⟩
    show (capacity heap o.address).toNat = _
    rw [capacity_toNat place (by omega), held]
  · obtain ⟨c, listed, place, bucket, _⟩ := kept.lives o member
    obtain ⟨c', listed', place', bucket', _⟩ := kept.lives o' member'
    have other : c ≠ c' := by
      rintro rfl
      exact differ (kept.single o member o' member'
        (UInt16.toNat_inj.mp (place.trans place'.symm)))
    have apart : c + (headSize.toNat + capOf (buckets c)) ≤ c' ∨
        c' + (headSize.toNat + capOf (buckets c')) ≤ c :=
      kept.stocked.tiles.apart listed listed' other
    rw [bucket, bucket'] at apart
    omega
  · obtain ⟨list, chain, nodup, members⟩ := kept.stocked.shelf b
    refine ⟨list, chain, nodup, fun c => ?_⟩
    rw [members c]
    constructor
    · rintro ⟨_, bucket, f, isFreed, place⟩
      obtain ⟨c', _, place', bucket'⟩ := kept.freeds f isFreed
      obtain rfl : c' = c := Nat.add_right_cancel (place'.symm.trans place)
      exact ⟨f, isFreed, bucket'.symm.trans bucket, place⟩
    · rintro ⟨f, isFreed, bucket, place⟩
      obtain ⟨c', listed, place', bucket'⟩ := kept.freeds f isFreed
      obtain rfl : c' = c := Nat.add_right_cancel (place'.symm.trans place)
      exact ⟨listed, bucket'.trans bucket, f, isFreed, place⟩

/-- A block that was freed is told by its place. -/
theorem Kept.freed_sdiff (kept : Kept heap live freed buckets chunks) {f : Block}
    (place : f.address.toNat = c + headSize.toNat) (bucket : buckets c = f.bucket) (d : Nat) :
    Freed (freed \ {f}) d ↔ Freed freed d ∧ d ≠ c := by
  constructor
  · rintro ⟨g, ⟨isFreed, other⟩, here⟩
    refine ⟨⟨g, isFreed, here⟩, ?_⟩
    rintro rfl
    obtain ⟨d', _, there, bucket'⟩ := kept.freeds g isFreed
    obtain rfl : d' = d := Nat.add_right_cancel (there.symm.trans here)
    have address : g.address = f.address := UInt16.toNat_inj.mp (here.trans place.symm)
    exact other (Block.ext address (bucket'.symm.trans bucket))
  · rintro ⟨⟨g, isFreed, here⟩, differ⟩
    refine ⟨g, ⟨isFreed, ?_⟩, here⟩
    rintro rfl
    exact differ (Nat.add_right_cancel (here.symm.trans place))

/-- The contents of the live blocks are the same. -/
def Spares (heap heap' : Heap) (live : Set Object) : Prop :=
  ∀ o ∈ live, ∀ i < capOf o.bucket,
    byteAt heap'.ram (o.address.toNat + i) = byteAt heap.ram (o.address.toNat + i)

/-- Of a heap, its blocks depend on the bounds, the free lists and the memory alone. -/
theorem Kept.congr (kept : Kept heap live freed buckets chunks) (ram : heap'.ram = heap.ram)
    (lists : heap'.buck_freelist = heap.buck_freelist) (least : heap'.heap_min = heap.heap_min)
    (here : heap'.heap_here = heap.heap_here)
    (most : heap.heap_here.toNat ≤ heap'.heap_max.toNat) :
    Kept heap' live freed buckets chunks := by
  have same : heads heap' = heads heap := funext fun b => congrArg (fun l => (l b).toNat) lists
  refine ⟨least ▸ kept.positive, here ▸ most, ?_, ram ▸ kept.lives, kept.freeds, kept.single⟩
  rw [ram, same, least, here]
  exact kept.stocked

theorem heap_check_block_eq (heap : Heap) (h cap : Word) :
    ∃ reports, heap_check_block heap h cap = { heap with reports := reports } := by
  rw [heap_check_block]
  split
  · exact ⟨_, rfl⟩
  · exact ⟨heap.reports, rfl⟩

/-! ### Allocation -/

/-- A block that is taken from a list. -/
theorem Kept.reuse (kept : Kept heap live freed buckets chunks) {b : Fin NBUCKETS} {cap : Word}
    (value : cap.toNat = capOf b) (some : heap.buck_freelist b ≠ 0) (fits : n.toNat ≤ capOf b) :
    Kept (reuse heap b cap).1 (insert ⟨⟨(reuse heap b cap).2, b⟩, n⟩ live)
      (freed \ {⟨(reuse heap b cap).2, b⟩}) buckets chunks ∧
      Granted (reuse heap b cap).1 (reuse heap b cap).2 n ∧ Spares heap (reuse heap b cap).1 live := by
  have header : headSize.toNat = 6 := rfl
  have nonzero : heads heap b ≠ 0 := fun none => some (UInt16.toNat_inj.mp none)
  obtain ⟨member, kind, isFree⟩ := kept.stocked.head_free nonzero
  have bucket : buckets (heads heap b) = b := kind
  have tiles := kept.stocked.tiles
  have limit := kept.here_lt
  have within := kept.within member
  rw [bucket] at within
  generalize place : heap.buck_freelist b = h at some
  have head : heads heap b = h.toNat := congrArg UInt16.toNat place
  rw [head] at member bucket isFree within
  have first : (h + 1).toNat = h.toNat + 1 := toNat_add h 1 (by
    show h.toNat + 1 < 65536
    omega)
  have third : (h + 3).toNat = h.toNat + 3 := toNat_add h 3 (by
    show h.toNat + 3 < 65536
    omega)
  have body : (h + headSize).toNat = h.toNat + headSize.toNat := toNat_add h headSize (by omega)
  obtain ⟨reports, checked⟩ :=
    heap_check_block_eq { heap with ram := putWord heap.ram (h + 3) cap } h cap
  have result : Froblib.reuse heap b cap = ({ heap with
      reports := reports
      buck_freelist := Function.update heap.buck_freelist b
        (getWord (putWord heap.ram (h + 3) cap) (h + 1))
      ram := clear (putWord heap.ram (h + 3) cap) (h + headSize) cap }, h + headSize) := by
    rw [Froblib.reuse, place, checked]
  rw [result]
  dsimp only
  have only : OnlyIn buckets heap.ram (clear (putWord heap.ram (h + 3) cap) (h + headSize) cap)
      h.toNat := by
    intro a small outside
    rw [bucket] at outside
    rw [clear_at small (by omega), if_neg (by omega), putWord_at_of_outside _ small (by omega)
      (by omega)]
  have link : (getWord (putWord heap.ram (h + 3) cap) (h + 1)).toNat =
      wordAt heap.ram (h.toNat + 1) := by
    rw [getWord_toNat _ (by omega), first]
    refine wordAt_congr ?_ ?_
    · exact putWord_at_of_outside _ (by omega) (by omega) (by omega)
    · exact putWord_at_of_outside _ (by omega) (by omega) (by omega)
  have held : wordAt (clear (putWord heap.ram (h + 3) cap) (h + headSize) cap) (h.toNat + 3) =
      capOf b := by
    rw [← value, ← wordAt_putWord heap.ram cap (by omega : (h + 3).toNat + 1 < 65536), third]
    refine wordAt_congr ?_ ?_
    · rw [clear_at (by omega) (by omega), if_neg (by omega)]
    · rw [clear_at (by omega) (by omega), if_neg (by omega)]
  have words : ∀ d ∈ chunks, d ≠ h.toNat →
      wordAt (clear (putWord heap.ram (h + 3) cap) (h + headSize) cap) (d + 1) =
        wordAt heap.ram (d + 1) ∧
      wordAt (clear (putWord heap.ram (h + 3) cap) (h + headSize) cap) (d + 3) =
        wordAt heap.ram (d + 3) := fun d listed differ =>
    only.words_of_ne tiles (by omega) member listed differ
  have frees := kept.freed_sdiff (f := ⟨h + headSize, b⟩) body bucket
  have fresh : ∀ o ∈ live, o.address ≠ h + headSize := by
    rintro o old same
    obtain ⟨d, _, there, _, used, _⟩ := kept.lives o old
    rw [same, body] at there
    exact used (Nat.add_right_cancel there ▸ isFree)
  refine ⟨⟨kept.positive, kept.ordered, ?_, ?_, fun f isFreed => kept.freeds f isFreed.1,
    single_insert kept.single fresh⟩, ?_, fun o old i inside => ?_⟩
  · have lists : (fun k => (Function.update heap.buck_freelist b
        (getWord (putWord heap.ram (h + 3) cap) (h + 1)) k).toNat) =
        Function.update (heads heap) b ((view heap.ram buckets).next (heads heap b)) := by
      rw [heads_update, link, head]
      rfl
    show Stocked (view (clear (putWord heap.ram (h + 3) cap) (h + headSize) cap) buckets)
      (fun k => (Function.update heap.buck_freelist b
        (getWord (putWord heap.ram (h + 3) cap) (h + 1)) k).toNat) _ _ _ _
    rw [lists]
    exact kept.stocked.take nonzero (fun _ _ => rfl) (fun _ _ => rfl)
      (fun d listed differ => (words d listed (head ▸ differ)).1) fun d _ => head ▸ frees d
  · rintro o (rfl | old)
    · exact ⟨h.toNat, member, body, bucket, fun again => ((frees _).mp again).2 rfl, held, fits⟩
    · obtain ⟨d, listed, there, same, used, held', len⟩ := kept.lives o old
      have differ : d ≠ h.toNat := by
        rintro rfl
        exact used isFree
      refine ⟨d, listed, there, same, fun again => used ((frees d).mp again).1, ?_, len⟩
      exact (words d listed differ).2.trans held'
  · have room : (capacity { heap with
        reports := reports
        buck_freelist := Function.update heap.buck_freelist b
          (getWord (putWord heap.ram (h + 3) cap) (h + 1))
        ram := clear (putWord heap.ram (h + 3) cap) (h + headSize) cap } (h + headSize)).toNat =
        capOf b := (capacity_toNat body (by omega)).trans held
    refine ⟨UInt16.le_iff_toNat_le.mpr (room.symm ▸ fits), fun i inside => ?_⟩
    rw [room] at inside
    show byteAt (clear (putWord heap.ram (h + 3) cap) (h + headSize) cap) _ = 0
    rw [clear_at (by omega) (by omega), if_pos (by omega)]
  · obtain ⟨d, listed, there, same, used, _⟩ := kept.lives o old
    have differ : d ≠ h.toNat := by
      rintro rfl
      exact used isFree
    rw [there, Nat.add_assoc]
    exact only.byteAt_of_ne tiles (by omega) member listed differ (by rw [same]; omega)

/-- A block that is carved off becomes the last one. -/
theorem Kept.carve (kept : Kept heap live freed buckets chunks) {b : Fin NBUCKETS} {cap : Word}
    (value : cap.toNat = capOf b) (fits : n.toNat ≤ capOf b)
    (bounded : heap.heap_here.toNat + (headSize.toNat + capOf b) < 65536)
    (room : heap.heap_here + (cap + headSize) ≤ heap.heap_max) :
    ∃ buckets' chunks',
      Kept (carve heap cap (heap.heap_here + (cap + headSize))).1
        (insert ⟨⟨heap.heap_here + headSize, b⟩, n⟩ live)
        (freed \ {⟨heap.heap_here + headSize, b⟩}) buckets' chunks' ∧
      Granted (carve heap cap (heap.heap_here + (cap + headSize))).1
        (heap.heap_here + headSize) n ∧
      Spares heap (carve heap cap (heap.heap_here + (cap + headSize))).1 live := by
  have header : headSize.toNat = 6 := rfl
  have stock := kept.stocked
  have tiles := stock.tiles
  have room : (heap.heap_here + (cap + headSize)).toNat ≤ heap.heap_max.toNat := room
  generalize place : heap.heap_here = h at *
  have first : (h + 1).toNat = h.toNat + 1 := toNat_add h 1 (by
    show h.toNat + 1 < 65536
    omega)
  have third : (h + 3).toNat = h.toNat + 3 := toNat_add h 3 (by
    show h.toNat + 3 < 65536
    omega)
  have fifth : (h + 5).toNat = h.toNat + 5 := toNat_add h 5 (by
    show h.toNat + 5 < 65536
    omega)
  have body : (h + headSize).toNat = h.toNat + headSize.toNat := toNat_add h headSize (by omega)
  have size : (cap + headSize).toNat = cap.toNat + headSize.toNat := toNat_add _ _ (by omega)
  have brk : (h + (cap + headSize)).toNat = h.toNat + (headSize.toNat + capOf b) := by
    rw [toNat_add _ _ (by omega), size, value, Nat.add_comm (capOf b)]
  generalize written : clear (putWord (putWord (putByte (putByte heap.ram h 65) (h + 5) 90)
    (h + 3) cap) (h + 1) 0) (h + headSize) cap = ram'
  have result : Froblib.carve heap cap (h + (cap + headSize)) =
      ({ heap with heap_here := h + (cap + headSize), ram := ram' }, h + headSize) := by
    rw [Froblib.carve, place, ← written]
  rw [result]
  have before : ∀ a < h.toNat, byteAt ram' a = byteAt heap.ram a := by
    intro a low
    rw [← written, clear_at (by omega) (by omega), if_neg (by omega),
      putWord_at_of_outside _ (by omega) (by omega) (by omega),
      putWord_at_of_outside _ (by omega) (by omega) (by omega), putByte_at _ (by omega),
      if_neg (by omega), putByte_at _ (by omega), if_neg (by omega)]
  have held : wordAt ram' (h.toNat + 3) = capOf b := by
    rw [← value, ← wordAt_putWord (putByte (putByte heap.ram h 65) (h + 5) 90) cap
      (by omega : (h + 3).toNat + 1 < 65536), third, ← written]
    refine wordAt_congr ?_ ?_
    · rw [clear_at (by omega) (by omega), if_neg (by omega),
        putWord_at_of_outside _ (by omega) (by omega) (by omega)]
    · rw [clear_at (by omega) (by omega), if_neg (by omega),
        putWord_at_of_outside _ (by omega) (by omega) (by omega)]
  -- the old blocks are in front of the new one
  have same : ∀ d ∈ chunks, d ≠ h.toNat ∧ ∀ i < headSize.toNat + capOf (buckets d),
      byteAt ram' (d + i) = byteAt heap.ram (d + i) := by
    intro d listed
    have within : heap.heap_min.toNat ≤ d ∧ 0 < headSize.toNat + capOf (buckets d) ∧
      d + (headSize.toNat + capOf (buckets d)) ≤ h.toNat := tiles.within listed
    exact ⟨by omega, fun i inside => before _ (by omega)⟩
  have words : ∀ d ∈ chunks, wordAt ram' (d + 1) = wordAt heap.ram (d + 1) ∧
      wordAt ram' (d + 3) = wordAt heap.ram (d + 3) := by
    intro d listed
    have bytes := (same d listed).2
    exact ⟨wordAt_congr (bytes 1 (by omega)) (bytes 2 (by omega)),
      wordAt_congr (bytes 3 (by omega)) (bytes 4 (by omega))⟩
  have bucket : ∀ d ∈ chunks, Function.update buckets h.toNat b d = buckets d := fun d listed =>
    Function.update_of_ne (same d listed).1 _ _
  have new : Function.update buckets h.toNat b h.toNat = b := Function.update_self ..
  have notFreed : ¬Freed freed h.toNat := by
    rintro ⟨f, isFreed, there⟩
    obtain ⟨d, listed, there', _⟩ := kept.freeds f isFreed
    exact (same d listed).1 (Nat.add_right_cancel (there'.symm.trans there))
  have untouched : freed \ {⟨h + headSize, b⟩} = freed := by
    refine Set.sdiff_singleton_eq_self fun isFreed => notFreed ⟨_, isFreed, body⟩
  have fresh : ∀ o ∈ live, o.address ≠ h + headSize := by
    rintro o old again
    obtain ⟨d, listed, there, _⟩ := kept.lives o old
    rw [again, body] at there
    exact (same d listed).1 (Nat.add_right_cancel there).symm
  have stocked : Stocked (view ram' (Function.update buckets h.toNat b)) (heads heap) (Freed freed)
      heap.heap_min.toNat (chunks ++ [h.toNat])
      (h.toNat + (view ram' (Function.update buckets h.toNat b)).size h.toNat) := by
    refine stock.carve (fun d listed => ?_) bucket (fun d listed _ => (words d listed).1)
      (fun _ _ => Iff.rfl) ?_ notFreed
    · exact congrArg (fun k => headSize.toNat + capOf k) (bucket d listed)
    · show 0 < headSize.toNat + capOf _
      omega
  have ends : h.toNat + (view ram' (Function.update buckets h.toNat b)).size h.toNat =
      (h + (cap + headSize)).toNat := by
    rw [brk]
    exact congrArg (fun k => h.toNat + (headSize.toNat + capOf k)) new
  rw [ends] at stocked
  refine ⟨Function.update buckets h.toNat b, chunks ++ [h.toNat], ?_, ?_, fun o old i inside => ?_⟩
  · rw [untouched]
    refine ⟨kept.positive, room, stocked, ?_, fun f isFreed => ?_, single_insert kept.single fresh⟩
    · rintro o (rfl | old)
      · exact ⟨h.toNat, List.mem_append_right _ (List.mem_singleton_self _), body, new, notFreed,
          held, fits⟩
      · obtain ⟨d, listed, there, kind, used, held', len⟩ := kept.lives o old
        exact ⟨d, List.mem_append_left _ listed, there, (bucket d listed).trans kind, used,
          (words d listed).2.trans held', len⟩
    · obtain ⟨d, listed, there, kind⟩ := kept.freeds f isFreed
      exact ⟨d, List.mem_append_left _ listed, there, (bucket d listed).trans kind⟩
  · have whole : (capacity { heap with heap_here := h + (cap + headSize), ram := ram' }
        (h + headSize)).toNat = capOf b := (capacity_toNat body (by omega)).trans held
    refine ⟨UInt16.le_iff_toNat_le.mpr (whole.symm ▸ fits), fun i inside => ?_⟩
    rw [whole] at inside
    show byteAt ram' _ = 0
    rw [← written, clear_at (by omega) (by omega), if_pos (by omega)]
  · obtain ⟨d, listed, there, kind, _⟩ := kept.lives o old
    rw [there, Nat.add_assoc]
    exact (same d listed).2 _ (by rw [kind]; omega)

theorem extend_fields (heap : Heap) (n cap : Word) :
    (extend kernel heap n cap).ram = heap.ram ∧
      (extend kernel heap n cap).buck_freelist = heap.buck_freelist ∧
      (extend kernel heap n cap).heap_min = heap.heap_min ∧
      (extend kernel heap n cap).heap_here = heap.heap_here := by
  generalize retrying : (if heap.heap_retry then mallocOOM heap 255 n cap else heap) = heap₀
  have fields : heap₀.ram = heap.ram ∧ heap₀.buck_freelist = heap.buck_freelist ∧
      heap₀.heap_min = heap.heap_min ∧ heap₀.heap_here = heap.heap_here := by
    rw [← retrying]
    split
    · exact ⟨rfl, rfl, rfl, rfl⟩
    · exact ⟨rfl, rfl, rfl, rfl⟩
  rw [extend, retrying]
  dsimp only
  rw [askMem]
  cases kernel heap₀.asked (heap₀.heap_max + 0x2000) with
  | ok result => exact fields
  | error e => exact fields

/-- If the end of the page is an address, the kernel's answer or the code itself raises the bound
by as much. -/
theorem extend_heap_max
    (grants : ∀ asked size granted last, kernel asked size = .ok (granted, last) → size ≤ granted)
    (small : heap.heap_max.toNat + 0x2000 < 65536) (n cap : Word) :
    heap.heap_max.toNat + 0x2000 ≤ (extend kernel heap n cap).heap_max.toNat := by
  have page : (heap.heap_max + 0x2000).toNat = heap.heap_max.toNat + 0x2000 :=
    toNat_add heap.heap_max 0x2000 small
  generalize retrying : (if heap.heap_retry then mallocOOM heap 255 n cap else heap) = heap₀
  have most : heap₀.heap_max = heap.heap_max := by
    rw [← retrying]
    split
    · rfl
    · rfl
  rw [extend, retrying]
  dsimp only
  rw [askMem, most]
  cases answer : kernel heap₀.asked (heap.heap_max + 0x2000) with
  | ok result =>
    obtain ⟨granted, last⟩ := result
    have enough := UInt16.le_iff_toNat_le.mp (grants _ _ _ _ answer)
    rw [page] at enough
    exact enough
  | error e => exact Nat.le_of_eq page.symm

/-- One more page leaves the blocks as they are. -/
theorem Kept.extend (kept : Kept heap live freed buckets chunks)
    (grants : ∀ asked size granted last, kernel asked size = .ok (granted, last) → size ≤ granted)
    (small : heap.heap_max.toNat + 0x2000 < 65536) (n cap : Word) :
    Kept (extend kernel heap n cap) live freed buckets chunks := by
  obtain ⟨ram, lists, least, here⟩ := extend_fields kernel heap n cap
  have most := extend_heap_max kernel grants small n cap
  have ordered := kept.ordered
  exact kept.congr ram lists least here (by omega)

/-- A block that `Malloc` returns, in a heap whose bounds are known. -/
theorem Kept.malloc {fuel : Nat} (kept : Kept heap live freed buckets chunks)
    (grants : ∀ asked size granted last, kernel asked size = .ok (granted, last) → size ≤ granted)
    (small : n.toNat ≤ 16384)
    (fits : heap.buck_freelist (bucketOf n) = 0 →
      heap.heap_here.toNat + (headSize.toNat + capOf (bucketOf n)) < 65536 ∧
      Grows kernel fuel heap n (UInt16.ofNat (capOf (bucketOf n))))
    (returned : Malloc kernel fuel heap n = (heap', .block p)) :
    ∃ buckets' chunks', Kept heap' (insert ⟨⟨p, bucketOf n⟩, n⟩ live)
      (freed \ {⟨p, bucketOf n⟩}) buckets' chunks' ∧ Granted heap' p n ∧
      Spares heap heap' live := by
  obtain ⟨cap, found, value, enough⟩ := which_bucket_spec small
  have word : UInt16.ofNat (capOf (bucketOf n)) = cap.toUInt16 := by
    rw [← value]
    exact UInt16.ofNat_toNat
  rw [word] at fits
  induction fuel generalizing heap heap' with
  | zero => cases returned
  | succ fuel inductionHypothesis =>
    have known := kept.known
    have same : started kernel heap n = heap := if_neg known
    rw [Malloc_of_found (bucketOf n).isLt found] at returned
    dsimp only at returned
    rw [same, if_neg (fun both => known both.1)] at returned
    by_cases some : heap.buck_freelist (bucketOf n) = 0
    · obtain ⟨bounded, grows⟩ := fits some
      rw [if_neg (fun listed => listed some)] at returned
      by_cases full : heap.heap_max < heap.heap_here + (cap.toUInt16 + headSize)
      · rw [if_pos full] at returned
        obtain ⟨page, grows⟩ := grows full
        obtain ⟨ram, lists, _, here⟩ := extend_fields kernel heap n cap.toUInt16
        have larger := kept.extend kernel grants page n cap.toUInt16
        cases again : Malloc kernel fuel (Froblib.extend kernel heap n cap.toUInt16) n with
        | mk last outcome =>
          rw [again] at returned
          cases outcome with
          | block q =>
            cases returned
            obtain ⟨buckets', chunks', after, granted, spares⟩ := inductionHypothesis larger again
              fun _ => ⟨here ▸ bounded, grows⟩
            refine ⟨buckets', chunks', after.congr rfl rfl rfl rfl after.ordered, granted, ?_⟩
            exact fun o old i inside => (spares o old i inside).trans
              (congrArg (byteAt · (o.address.toNat + i)) ram)
          | stopped => cases returned
          | outOfTable b => cases returned
          | unfinished => cases returned
      · rw [if_neg full] at returned
        cases returned
        exact kept.carve value enough bounded (UInt16.not_lt.mp full)
    · rw [if_pos some] at returned
      cases returned
      exact ⟨buckets, chunks, kept.reuse value some enough⟩

/-! ### The other calls -/

/-- A block that is freed is on the list of its bucket. -/
theorem Kept.free (kept : Kept heap live freed buckets chunks) {o : Object} (owned : o ∈ live)
    (returned : Free heap o.address = some heap') :
    Kept heap' (live \ {o}) (insert o.toBlock freed) buckets chunks ∧
      Spares heap heap' (live \ {o}) := by
  have header : headSize.toNat = 6 := rfl
  have tiles := kept.stocked.tiles
  have limit := kept.here_lt
  obtain ⟨c, member, place, bucket, used, held, len⟩ := kept.lives o owned
  have within := kept.within member
  rw [bucket] at within
  have caps := capOf_bounds o.bucket
  have positive := kept.positive
  generalize start : o.address - headSize = h
  have head : h.toNat = c := start ▸ toNat_sub_headSize place
  have first : (h + 1).toNat = h.toNat + 1 := toNat_add h 1 (by
    show h.toNat + 1 < 65536
    omega)
  have third : (h + 3).toNat = h.toNat + 3 := toNat_add h 3 (by
    show h.toNat + 3 < 65536
    omega)
  have value : (getWord heap.ram (h + 3)).toNat = capOf o.bucket := by
    rw [getWord_toNat _ (by omega), third, head, held]
  obtain ⟨cap, found, capacity, -⟩ := which_bucket_spec
    (n := getWord heap.ram (h + 3)) (by omega)
  have again : bucketOf (getWord heap.ram (h + 3)) = o.bucket := by
    have word : getWord heap.ram (h + 3) = UInt16.ofNat (capOf o.bucket) := by
      rw [← value]
      exact UInt16.ofNat_toNat.symm
    rw [word]
    exact bucketOf_capOf o.bucket
  rw [again] at found capacity
  obtain ⟨reports, checked⟩ := heap_check_block_eq heap h cap.toUInt16
  have some : o.address ≠ 0 := by
    intro none
    rw [none] at place
    have zero : (0 : Word).toNat = 0 := rfl
    omega
  have someCap : getWord heap.ram (h + 3) ≠ 0 := by
    intro none
    rw [none] at value
    have zero : (0 : Word).toNat = 0 := rfl
    omega
  generalize written : putWord (putWord (clear heap.ram o.address cap.toUInt16) (h + 3) 0) (h + 1)
    (heap.buck_freelist o.bucket) = ram'
  have result : heap' = { heap with
      reports := reports
      ram := ram'
      buck_freelist := Function.update heap.buck_freelist o.bucket h } := by
    rw [Free, if_neg some] at returned
    dsimp only at returned
    rw [start, if_neg someCap, found] at returned
    dsimp only at returned
    rw [dif_pos o.bucket.isLt, checked] at returned
    exact (Option.some.inj returned).symm.trans (written ▸ rfl)
  rw [result]
  have only : OnlyIn buckets heap.ram ram' c := by
    intro a small outside
    rw [bucket] at outside
    rw [← written, putWord_at_of_outside _ small (by omega) (by omega),
      putWord_at_of_outside _ small (by omega) (by omega), clear_at small (by omega),
      if_neg (by omega)]
  have link : wordAt ram' (c + 1) = heads heap o.bucket := by
    rw [← head, ← first, ← written, wordAt_putWord _ _ (by omega)]
    rfl
  have words : ∀ d ∈ chunks, d ≠ c → wordAt ram' (d + 1) = wordAt heap.ram (d + 1) ∧
      wordAt ram' (d + 3) = wordAt heap.ram (d + 3) := fun d listed differ =>
    only.words_of_ne tiles (by omega) member listed differ
  have frees : ∀ d, Freed (insert o.toBlock freed) d ↔ d = c ∨ Freed freed d := by
    intro d
    constructor
    · rintro ⟨f, rfl | isFreed, there⟩
      · exact .inl (Nat.add_right_cancel (there.symm.trans place))
      · exact .inr ⟨f, isFreed, there⟩
    · rintro (rfl | ⟨f, isFreed, there⟩)
      · exact ⟨o.toBlock, Set.mem_insert _ _, place⟩
      · exact ⟨f, Set.mem_insert_of_mem _ isFreed, there⟩
  have others : ∀ o' ∈ live \ {o}, ∀ d, o'.address.toNat = d + headSize.toNat → d ≠ c := by
    rintro o' ⟨old, differ⟩ d there rfl
    exact differ (kept.single o' old o owned (UInt16.toNat_inj.mp (there.trans place.symm)))
  refine ⟨⟨kept.positive, kept.ordered, ?_, ?_, ?_, fun o' held o'' held' =>
    kept.single o' held.1 o'' held'.1⟩, fun o' old i inside => ?_⟩
  · have lists : (fun k => (Function.update heap.buck_freelist o.bucket h k).toNat) =
        Function.update (heads heap) (buckets c) c := by
      rw [heads_update, head, bucket]
      rfl
    show Stocked (view ram' buckets)
      (fun k => (Function.update heap.buck_freelist o.bucket h k).toNat) _ _ _ _
    rw [lists]
    refine kept.stocked.give member used (by omega) (fun _ _ => rfl) (fun _ _ => rfl) ?_
      (fun d listed differ => (words d listed differ).1) fun d _ => frees d
    exact link.trans (congrArg (heads heap) bucket.symm)
  · intro o' old
    obtain ⟨d, listed, there, same, used', held', len'⟩ := kept.lives o' old.1
    have other := others o' old d there
    exact ⟨d, listed, there, same, fun again => ((frees d).mp again).elim other used',
      (words d listed other).2.trans held', len'⟩
  · rintro f (rfl | isFreed)
    · exact ⟨c, member, place, bucket⟩
    · exact kept.freeds f isFreed
  · obtain ⟨d, listed, there, same, _⟩ := kept.lives o' old.1
    rw [there, Nat.add_assoc]
    exact only.byteAt_of_ne tiles (by omega) member listed (others o' old d there)
      (by rw [same]; omega)

/-- What is written in the body of a live block leaves the blocks as they are. -/
theorem Kept.payload (kept : Kept heap live freed buckets chunks) {o : Object} (owned : o ∈ live)
    {ram' : Ram} (only : ∀ a < 65536, a < o.address.toNat ∨
      o.address.toNat + capOf o.bucket ≤ a → byteAt ram' a = byteAt heap.ram a) :
    Kept { heap with ram := ram' } live freed buckets chunks := by
  have header : headSize.toNat = 6 := rfl
  have tiles := kept.stocked.tiles
  have limit := kept.here_lt
  obtain ⟨c, member, place, bucket, used, _⟩ := kept.lives o owned
  have within := kept.within member
  have inBlock : OnlyIn buckets heap.ram ram' c := by
    intro a small outside
    rw [bucket] at outside
    exact only a small (by omega)
  have words : ∀ d ∈ chunks, wordAt ram' (d + 1) = wordAt heap.ram (d + 1) ∧
      wordAt ram' (d + 3) = wordAt heap.ram (d + 3) := by
    intro d listed
    by_cases same : d = c
    · rw [same]
      exact ⟨wordAt_congr (only _ (by omega) (by omega)) (only _ (by omega) (by omega)),
        wordAt_congr (only _ (by omega) (by omega)) (only _ (by omega) (by omega))⟩
    · exact inBlock.words_of_ne tiles (by omega) member listed same
  refine ⟨kept.positive, kept.ordered, ?_, ?_, kept.freeds, kept.single⟩
  · exact kept.stocked.congr (fun _ _ => rfl) (fun _ _ => rfl)
      (fun d listed _ => (words d listed).1) fun _ _ => Iff.rfl
  · intro o' old
    obtain ⟨d, listed, there, same, free, held, len⟩ := kept.lives o' old
    exact ⟨d, listed, there, same, free, (words d listed).2.trans held, len⟩

/-- `memcpy` between places that do not meet. -/
theorem copy_at (ram : Ram) {dest source : Word} {count : Nat}
    (destFits : dest.toNat + count ≤ 65536) (sourceFits : source.toNat + count ≤ 65536)
    (apart : dest.toNat + count ≤ source.toNat ∨ source.toNat + count ≤ dest.toNat) {a : Nat}
    (small : a < 65536) :
    byteAt (copy ram dest source count) a =
      if dest.toNat ≤ a ∧ a < dest.toNat + count then
        byteAt ram (source.toNat + (a - dest.toNat))
      else byteAt ram a := by
  induction count generalizing a with
  | zero => exact (if_neg (by omega)).symm
  | succ count inductionHypothesis =>
    have word : (UInt16.ofNat count).toNat = count := toNat_ofNat (by omega)
    have written : (dest + UInt16.ofNat count).toNat = dest.toNat + count := by
      rw [toNat_add _ _ (by omega), word]
    have last : (source + UInt16.ofNat count).toNat = source.toNat + count := by
      rw [toNat_add _ _ (by omega), word]
    have read : copy ram dest source count (source + UInt16.ofNat count) =
        byteAt ram (source.toNat + count) := by
      rw [← byteAt_toNat (copy ram dest source count), last,
        inductionHypothesis (by omega) (by omega) (by omega) (by omega), if_neg (by omega)]
    show byteAt (putByte (copy ram dest source count) (dest + UInt16.ofNat count)
      (copy ram dest source count (source + UInt16.ofNat count))) a = _
    rw [read, putByte_at _ small, written,
      inductionHypothesis (by omega) (by omega) (by omega) small]
    by_cases here : a = dest.toNat + count
    · rw [if_pos here, if_pos (by omega), here, Nat.add_sub_cancel_left]
    · rw [if_neg here]
      exact if_congr (by omega) rfl rfl

/-- `ReAlloc` keeps the block, or takes one that is larger, copies the old one and frees it. -/
theorem Kept.reAlloc {fuel : Nat} {o : Object} {z : Word}
    (kept : Kept heap live freed buckets chunks)
    (grants : ∀ asked size granted last, kernel asked size = .ok (granted, last) → size ≤ granted)
    (owned : o ∈ live)
    (careful : capOf o.bucket < n.toNat → n.toNat ≤ 16384 ∧
      (heap.buck_freelist (bucketOf n) = 0 →
        heap.heap_here.toNat + (headSize.toNat + capOf (bucketOf n)) < 65536 ∧
        Grows kernel fuel heap n (UInt16.ofNat (capOf (bucketOf n)))))
    (returned : ReAlloc kernel fuel heap o.address n = (heap', .block z)) :
    z = o.address ∧ heap' = heap ∧ n.toNat ≤ capOf o.bucket ∨
      z ≠ o.address ∧ (∃ buckets' chunks', Kept heap' (insert ⟨⟨z, bucketOf n⟩, n⟩ live \ {o})
        (insert o.toBlock (freed \ {⟨z, bucketOf n⟩})) buckets' chunks') ∧
        Moved heap heap' o z n := by
  have large := (kept.sound.large o owned).1
  have positive := kept.positive
  have some : o.address ≠ 0 := by
    intro none
    have inside := (kept.sound.inside o owned).1
    have header : headSize.toNat = 6 := rfl
    rw [none] at inside
    have zero : (0 : Word).toNat = 0 := rfl
    omega
  rw [ReAlloc, if_neg some] at returned
  dsimp only at returned
  by_cases fits : n.toNat ≤ capOf o.bucket
  · have enough : n ≤ getWord heap.ram (o.address - headSize + 3) :=
      UInt16.le_iff_toNat_le.mpr (Nat.le_trans fits (Nat.le_of_eq large.symm))
    rw [if_pos enough] at returned
    cases returned
    exact .inl ⟨rfl, rfl, fits⟩
  · have short : ¬n ≤ getWord heap.ram (o.address - headSize + 3) := fun enough =>
      fits (Nat.le_trans (UInt16.le_iff_toNat_le.mp enough) (Nat.le_of_eq large))
    obtain ⟨small, room⟩ := careful (Nat.not_le.mp fits)
    rw [if_neg short] at returned
    cases taken : Malloc kernel fuel heap n with
    | mk between outcome =>
      rw [taken] at returned
      cases outcome with
      | stopped => cases returned
      | outOfTable b => cases returned
      | unfinished => cases returned
      | block q =>
        dsimp only at returned
        obtain ⟨buckets', chunks', after, granted, spares⟩ :=
          kept.malloc kernel grants small room taken
        have old : o ∈ insert (⟨⟨q, bucketOf n⟩, n⟩ : Object) live := Set.mem_insert_of_mem _ owned
        have new : (⟨⟨q, bucketOf n⟩, n⟩ : Object) ∈
            insert (⟨⟨q, bucketOf n⟩, n⟩ : Object) live := Set.mem_insert _ _
        have enough : n.toNat ≤ capOf (bucketOf n) := (after.sound.large _ new).2
        have held : (getWord between.ram (o.address - headSize + 3)).toNat = capOf o.bucket :=
          (after.sound.large o old).1
        have differ : q ≠ o.address := by
          intro same
          have equal := after.single _ new o old same
          have bucket : bucketOf n = o.bucket := congrArg (fun o : Object => o.bucket) equal
          rw [bucket] at enough
          exact fits enough
        have other : o ≠ ⟨⟨q, bucketOf n⟩, n⟩ := fun equal =>
          differ (congrArg (fun o : Object => o.address) equal).symm
        have apart := after.sound.apart o old _ new other
        have inside := after.sound.inside o old
        have inside' := after.sound.inside _ new
        dsimp only at apart inside inside'
        have limit := between.heap_max.toNat_lt
        rw [held] at returned
        have copied : ∀ {a : Nat}, a < 65536 → _ := @copy_at between.ram q o.address
          (capOf o.bucket) (by omega) (by omega) (by omega)
        have moved := @Kept.payload _ _ _ _ _ after _ new
          (copy between.ram q o.address (capOf o.bucket)) fun a below outside => by
            dsimp only at outside
            rw [copied below, if_neg (by omega)]
        cases freeing : Free { between with
            ram := copy between.ram q o.address (capOf o.bucket) } o.address with
        | none =>
          rw [freeing] at returned
          cases returned
        | some last =>
          rw [freeing] at returned
          cases returned
          obtain ⟨freed', spares'⟩ := moved.free old freeing
          have left : (⟨⟨z, bucketOf n⟩, n⟩ : Object) ∈
              insert (⟨⟨z, bucketOf n⟩, n⟩ : Object) live \ {o} := ⟨new, fun same => other same.symm⟩
          refine .inr ⟨differ, ⟨buckets', chunks', freed'⟩, ?_, fun i within => ?_⟩
          · have room : (capacity heap' z).toNat = capOf (bucketOf n) :=
              (freed'.sound.large _ left).1
            refine UInt16.le_iff_toNat_le.mpr ?_
            rw [room]
            exact enough
          · have first : i < capOf o.bucket := by omega
            have second : i < capOf (bucketOf n) := by omega
            have body := spares' _ left i second
            rw [body]
            show byteAt (copy between.ram z o.address (capOf o.bucket)) (z.toNat + i) = _
            rw [copied (by omega), if_pos (by omega), Nat.add_sub_cancel_left]
            exact spares o owned i first

/-- A block may change the size that it was asked for. -/
theorem Kept.resize {o : Object} (kept : Kept heap live freed buckets chunks) (owned : o ∈ live)
    (fits : n.toNat ≤ capOf o.bucket) :
    Kept heap (insert ⟨o.toBlock, n⟩ (live \ {o})) freed buckets chunks := by
  refine ⟨kept.positive, kept.ordered, kept.stocked, ?_, kept.freeds, ?_⟩
  · rintro o' (rfl | old)
    · obtain ⟨c, listed, place, bucket, used, held, _⟩ := kept.lives o owned
      exact ⟨c, listed, place, bucket, used, held, fits⟩
    · exact kept.lives o' old.1
  · rintro o' (rfl | old) o'' (rfl | old') same
    · rfl
    · exact absurd (kept.single o owned o'' old'.1 same).symm old'.2
    · exact absurd (kept.single o' old.1 o owned same) old.2
    · exact kept.single o' old.1 o'' old'.1 same

end

/-! ### Runs -/

/-- Before the first call nothing is known of the memory, and there are no blocks. -/
structure Unused (s : Owned) : Prop where
  unknown : s.heap.heap_max = 0
  lists : ∀ b, s.heap.buck_freelist b = 0
  live : s.live = ∅
  freed : s.freed = ∅

def Alive (s : Owned) : Prop :=
  Unused s ∨ ∃ buckets chunks, Kept s.heap s.live s.freed buckets chunks

section

variable {kernel fuel} {s : Owned} {heap : Heap} {n p : Word}

theorem Unused.sound (unused : Unused s) : Sound s := by
  have none : ∀ o, o ∉ s.live := fun o => unused.live ▸ Set.notMem_empty o
  refine ⟨fun o member => absurd member (none o), fun o member => absurd member (none o),
    fun o member => absurd member (none o), fun b => ⟨[], ?_, List.nodup_nil, fun c => ?_⟩⟩
  · exact congrArg UInt16.toNat (unused.lists b)
  · refine iff_of_false List.not_mem_nil ?_
    rintro ⟨f, member, _⟩
    rw [unused.freed] at member
    exact Set.notMem_empty f member

theorem Alive.sound (alive : Alive s) : Sound s := by
  rcases alive with unused | ⟨_, _, kept⟩
  · exact unused.sound
  · exact kept.sound

theorem started_of_known (known : heap.heap_max ≠ 0) : started kernel heap n = heap := if_neg known

/-- The first call begins with no blocks, where the kernel says that the memory ends. -/
theorem Unused.started (unused : Unused s) (some : (started kernel s.heap n).heap_min ≠ 0)
    (ordered : ¬(started kernel s.heap n).heap_max < (started kernel s.heap n).heap_min) :
    ∃ buckets, Kept (started kernel s.heap n) s.live s.freed buckets [] := by
  have first : Froblib.started kernel s.heap n = firstMalloc kernel s.heap n :=
    if_pos unused.unknown
  have fields : (firstMalloc kernel s.heap n).heap_here = (firstMalloc kernel s.heap n).heap_min ∧
      (firstMalloc kernel s.heap n).buck_freelist = s.heap.buck_freelist := by
    rw [firstMalloc, askMem]
    cases kernel s.heap.asked 0 with
    | ok result =>
      dsimp only
      rw [askMem]
      dsimp only
      split
      · exact ⟨rfl, rfl⟩
      · exact ⟨rfl, rfl⟩
    | error e =>
      dsimp only
      rw [askMem]
      dsimp only
      split
      · exact ⟨rfl, rfl⟩
      · exact ⟨rfl, rfl⟩
  rw [first] at some ordered ⊢
  obtain ⟨here, lists⟩ := fields
  have positive : 0 < (firstMalloc kernel s.heap n).heap_min.toNat :=
    Nat.pos_of_ne_zero fun none => some (UInt16.toNat_inj.mp none)
  refine ⟨fun _ => ⟨0, by decide⟩, positive, here ▸ UInt16.not_lt.mp ordered, ?_, fun o member => ?_,
    fun f member => ?_, fun o member => ?_⟩
  · refine .of_not_free (congrArg UInt16.toNat here.symm) (fun b => ?_) fun c member => ?_
    · exact congrArg UInt16.toNat ((congrFun lists b).trans (unused.lists b))
    · exact absurd member List.not_mem_nil
  · rw [unused.live] at member
    exact absurd member (Set.notMem_empty o)
  · rw [unused.freed] at member
    exact absurd member (Set.notMem_empty f)
  · rw [unused.live] at member
    exact absurd member (Set.notMem_empty o)

/-- What `Malloc` does to the blocks, from any state that a run reaches. -/
theorem Alive.malloc (alive : Alive s)
    (grants : ∀ asked size granted last, kernel asked size = .ok (granted, last) → size ≤ granted)
    (small : n ≤ 16384) (fits : Fits kernel fuel s.heap n)
    (returned : Malloc kernel fuel s.heap n = (heap, .block p)) :
    Alive (s.gain heap p n) ∧ Granted heap p n := by
  have small : n.toNat ≤ 16384 := small
  obtain ⟨first, room⟩ := fits
  rcases alive with unused | ⟨buckets, chunks, kept⟩
  · cases fuel with
    | zero => cases returned
    | succ fuel =>
      obtain ⟨cap, found, -⟩ := which_bucket_spec small
      have once := @Malloc_of_found kernel n _ cap (bucketOf n).isLt found fuel s.heap
      dsimp only at once
      by_cases wrong : (started kernel s.heap n).heap_max < (started kernel s.heap n).heap_min
      · rw [if_pos ⟨unused.unknown, wrong⟩] at once
        cases once.symm.trans returned
      · obtain ⟨buckets, kept⟩ := unused.started (first unused.unknown) wrong
        have known := kept.known
        -- from there on it is as if the bounds had been known before
        have again := @Malloc_of_found kernel n _ cap (bucketOf n).isLt found fuel
          (started kernel s.heap n)
        dsimp only at again
        rw [started_of_known known, if_neg fun both => known both.1] at again
        rw [if_neg fun both => wrong both.2] at once
        obtain ⟨buckets', chunks', after, granted, -⟩ := kept.malloc kernel grants small room
          (again.trans (once.symm.trans returned))
        exact ⟨.inr ⟨buckets', chunks', after⟩, granted⟩
  · have known := kept.known
    rw [started_of_known known] at room
    obtain ⟨buckets', chunks', after, granted, -⟩ := kept.malloc kernel grants small room returned
    exact ⟨.inr ⟨buckets', chunks', after⟩, granted⟩

/-- What `ReAlloc` does to the blocks. -/
theorem Alive.reAlloc {o : Object} (alive : Alive s)
    (grants : ∀ asked size granted last, kernel asked size = .ok (granted, last) → size ≤ granted)
    (owned : o ∈ s.live) (careful : Careful kernel fuel s (.reAlloc (some o) n))
    (returned : ReAlloc kernel fuel s.heap o.address n = (heap, .block p)) :
    (if p = o.address then Alive ⟨heap, insert ⟨o.toBlock, n⟩ (s.live \ {o}), s.freed⟩
      else Alive ((s.gain heap p n).lose heap o)) ∧ Moved s.heap heap o p n := by
  rcases alive with unused | ⟨buckets, chunks, kept⟩
  · rw [unused.live] at owned
    exact absurd owned (Set.notMem_empty o)
  · have known := kept.known
    have room : capOf o.bucket < n.toNat → n.toNat ≤ 16384 ∧
        (s.heap.buck_freelist (bucketOf n) = 0 →
          s.heap.heap_here.toNat + (headSize.toNat + capOf (bucketOf n)) < 65536 ∧
          Grows kernel fuel s.heap n (UInt16.ofNat (capOf (bucketOf n)))) := by
      intro more
      obtain ⟨small, _, room⟩ := careful more
      rw [started_of_known known] at room
      exact ⟨small, room⟩
    rcases kept.reAlloc kernel grants owned room returned with
      ⟨rfl, rfl, fits⟩ | ⟨differ, ⟨buckets', chunks', after⟩, moved⟩
    · rw [if_pos rfl]
      refine ⟨.inr ⟨buckets, chunks, kept.resize owned fits⟩, ?_, fun _ _ => rfl⟩
      exact UInt16.le_iff_toNat_le.mpr (Nat.le_trans fits
        (Nat.le_of_eq (kept.sound.large o owned).1.symm))
    · rw [if_neg differ]
      exact ⟨.inr ⟨buckets', chunks', after⟩, moved⟩

/-- One call preserves the invariant. -/
theorem Alive.step {s' : Owned} {call : Call} (alive : Alive s)
    (grants : ∀ asked size granted last, kernel asked size = .ok (granted, last) → size ≤ granted)
    (careful : Careful kernel fuel s call) (stepped : step kernel fuel s call = some s') :
    Alive s' := by
  have fromMalloc : ∀ n, n ≤ 16384 ∧ Fits kernel fuel s.heap n →
      (match Malloc kernel fuel s.heap n with
        | (heap, .block p) => some (s.gain heap p n)
        | _ => none) = some s' → Alive s' := by
    intro n both taken
    cases returned : Malloc kernel fuel s.heap n with
    | mk heap outcome =>
      rw [returned] at taken
      cases outcome with
      | block p =>
        cases taken
        exact (alive.malloc grants both.1 both.2 returned).1
      | stopped => cases taken
      | outOfTable b => cases taken
      | unfinished => cases taken
  cases call with
  | malloc n => exact fromMalloc n careful stepped
  | reAlloc old n =>
    cases old with
    | none => exact fromMalloc n careful stepped
    | some o =>
      rw [Froblib.step] at stepped
      split at stepped
      · rename_i owned
        cases returned : ReAlloc kernel fuel s.heap o.address n with
        | mk heap outcome =>
          rw [returned] at stepped
          cases outcome with
          | block z =>
            have after := (alive.reAlloc grants owned careful returned).1
            dsimp only at stepped
            split at stepped
            · rename_i same
              rw [if_pos same] at after
              cases stepped
              exact after
            · rename_i differ
              rw [if_neg differ] at after
              cases stepped
              exact after
          | stopped => cases stepped
          | outOfTable b => cases stepped
          | unfinished => cases stepped
      · cases stepped
  | free old =>
    cases old with
    | none =>
      cases stepped
      exact alive
    | some o =>
      rw [Froblib.step] at stepped
      split at stepped
      · rename_i owned
        obtain ⟨heap, freed, rfl⟩ := Option.map_eq_some_iff.mp stepped
        rcases alive with unused | ⟨buckets, chunks, kept⟩
        · rw [unused.live] at owned
          exact absurd owned (Set.notMem_empty o)
        · exact .inr ⟨buckets, chunks, (kept.free owned freed).1⟩
      · cases stepped
  | write o i byte =>
    rw [Froblib.step] at stepped
    split at stepped
    · rename_i inside
      cases stepped
      rcases alive with unused | ⟨buckets, chunks, kept⟩
      · have owned := inside.1
        rw [unused.live] at owned
        exact absurd owned (Set.notMem_empty o)
      · have bounds := (kept.sound.inside o inside.1).2
        have limit := s.heap.heap_max.toNat_lt
        dsimp only at bounds
        have word : (UInt16.ofNat i).toNat = i := toNat_ofNat (by omega)
        have place : (o.address + UInt16.ofNat i).toNat = o.address.toNat + i := by
          rw [toNat_add _ _ (by omega), word]
        refine .inr ⟨buckets, chunks, kept.payload inside.1 fun a small outside => ?_⟩
        rw [putByte_at _ small, place, if_neg (by omega)]
    · cases stepped

end

/-- In every run that meets the condition the blocks are as they should be, and so is what `Malloc`
and `ReAlloc` return where they meet it. -/
theorem lifetimes_sound (kernel : Kernel) (fuel : Nat) (ram : Ram)
    (grants : ∀ asked size granted last, kernel asked size = .ok (granted, last) → size ≤ granted)
    (calls : List Call) (s : Owned)
    (careful : Meets (step kernel fuel) (Careful kernel fuel) ⟨{ idleHeap with ram := ram }, ∅, ∅⟩
      calls)
    (reached : run (step kernel fuel) ⟨{ idleHeap with ram := ram }, ∅, ∅⟩ calls = some s) :
    Sound s ∧
      (∀ n heap p, Careful kernel fuel s (.malloc n) →
        Malloc kernel fuel s.heap n = (heap, .block p) → Granted heap p n) ∧
      ∀ o ∈ s.live, ∀ n heap z, Careful kernel fuel s (.reAlloc (some o) n) →
        ReAlloc kernel fuel s.heap o.address n = (heap, .block z) → Moved s.heap heap o z n := by
  have start : Alive ⟨{ idleHeap with ram := ram }, ∅, ∅⟩ := .inl ⟨rfl, fun _ => rfl, rfl, rfl⟩
  have alive : Alive s := invariant_of_run Alive
    (fun _ _ _ alive careful stepped => alive.step grants careful stepped) start careful reached
  refine ⟨alive.sound, fun n heap p careful' returned => ?_,
    fun o owned n heap z careful' returned => ?_⟩
  · exact (alive.malloc grants careful'.1 careful'.2 returned).2
  · exact (alive.reAlloc grants owned careful' returned).2

theorem step_malloc {s : Owned} {n p : Word} {heap : Heap}
    (returned : Malloc kernel fuel s.heap n = (heap, .block p)) :
    step kernel fuel s (.malloc n) = some (s.gain heap p n) := by
  rw [step, returned]

theorem generousKernel_grants : ∀ asked size granted last,
    generousKernel asked size = .ok (granted, last) → size ≤ granted := by
  intro asked size granted last answer
  cases answer
  show size ≤ if size ≤ 0x4000 then 0x4000 else size
  split
  · assumption
  · exact UInt16.le_refl size

theorem step_free {s : Owned} {o : Object} {heap : Heap} (owned : o ∈ s.live)
    (freed : Free s.heap o.address = some heap) :
    step kernel fuel s (.free (some o)) = some (s.lose heap o) := by
  rw [step, if_pos owned, freed]
  rfl

theorem step_reAlloc {s : Owned} {o : Object} {heap : Heap} {n z : Word} (owned : o ∈ s.live)
    (differ : z ≠ o.address) (moved : ReAlloc kernel fuel s.heap o.address n = (heap, .block z)) :
    step kernel fuel s (.reAlloc (some o) n) = some ((s.gain heap z n).lose heap o) := by
  rw [step, if_pos owned, moved]
  exact if_neg differ

/-- If the block fits, no page is asked for. -/
theorem fits_of_room {heap : Heap} {n : Word}
    (known : heap.heap_max = 0 → (started kernel heap n).heap_min ≠ 0)
    (inside : (started kernel heap n).heap_here.toNat + (headSize.toNat + capOf (bucketOf n)) <
      65536)
    (room : (started kernel heap n).heap_here + (UInt16.ofNat (capOf (bucketOf n)) + headSize) ≤
      (started kernel heap n).heap_max) : Fits kernel 1 heap n :=
  ⟨known, fun _ => ⟨inside, fun full => absurd full (UInt16.not_lt.mpr room)⟩⟩

def object (p n : Word) : Object := ⟨⟨p, bucketOf n⟩, n⟩

def oneBlock : Heap := (Malloc generousKernel 1 { idleHeap with ram := fun _ => 0 } 8).1

def twoBlocks : Heap := (Malloc generousKernel 1 oneBlock 20).1

def oneFreed : Heap := (Free twoBlocks 0x4006).getD twoBlocks

def reused : Heap := (Malloc generousKernel 1 oneFreed 5).1

/-- Two blocks are allocated, the first is freed and taken again, and the second one grows. -/
def busyCalls : List Call :=
  [.malloc 8, .malloc 20, .free (some (object 0x4006 8)), .malloc 5,
    .reAlloc (some (object 0x4014 20)) 100]

/-- If the block fits, `Malloc` meets the condition. -/
theorem takes_malloc {s : Owned} {heap : Heap} {n p : Word} (here : s.heap = heap)
    (small : n ≤ 16384) (known : heap.heap_max = 0 → (started generousKernel heap n).heap_min ≠ 0)
    (inside : (started generousKernel heap n).heap_here.toNat +
      (headSize.toNat + capOf (bucketOf n)) < 65536)
    (room : (started generousKernel heap n).heap_here +
      (UInt16.ofNat (capOf (bucketOf n)) + headSize) ≤ (started generousKernel heap n).heap_max)
    (returned : (Malloc generousKernel 1 heap n).2 = .block p) :
    step generousKernel 1 s (.malloc n) = some (s.gain (Malloc generousKernel 1 heap n).1 p n) ∧
      Careful generousKernel 1 s (.malloc n) := by
  subst here
  exact ⟨step_malloc generousKernel 1 (Prod.ext rfl returned),
    small, fits_of_room _ known inside room⟩

/-- The block that grew has moved, and what it left is free. -/
theorem sound_busyRun : ∃ s,
    run (step generousKernel 1) ⟨{ idleHeap with ram := fun _ => 0 }, ∅, ∅⟩ busyCalls = some s ∧
      object 0x403A 100 ∈ s.live ∧ (object 0x4014 20).toBlock ∈ s.freed ∧ Sound s := by
  obtain ⟨step₁, careful₁⟩ := takes_malloc (s := ⟨{ idleHeap with ram := fun _ => 0 }, ∅, ∅⟩)
    (n := 8) (p := 0x4006) rfl (by decide) (by decide +kernel) (by decide +kernel)
    (by decide +kernel) (by decide +kernel)
  generalize first : Owned.gain _ _ _ _ = s₁ at step₁
  have heap₁ : s₁.heap = oneBlock := first ▸ rfl
  obtain ⟨step₂, careful₂⟩ := takes_malloc (n := 20) (p := 0x4014) heap₁ (by decide)
    (by decide +kernel) (by decide +kernel) (by decide +kernel) (by decide +kernel)
  generalize second : Owned.gain s₁ _ _ _ = s₂ at step₂
  have heap₂ : s₂.heap = twoBlocks := second ▸ rfl
  have live₁ : object 0x4006 8 ∈ s₂.live :=
    second ▸ Set.mem_insert_of_mem _ (first ▸ Set.mem_insert _ _)
  have live₂ : object 0x4014 20 ∈ s₂.live := second ▸ Set.mem_insert _ _
  have freed : Free s₂.heap 0x4006 = some oneFreed := by
    obtain ⟨heap, frees⟩ := Option.isSome_iff_exists.mp
      (show (Free twoBlocks 0x4006).isSome = true by decide +kernel)
    rw [heap₂, oneFreed, frees]
    rfl
  have step₃ := step_free generousKernel 1 live₁ freed
  generalize third : Owned.lose s₂ _ _ = s₃ at step₃
  have heap₃ : s₃.heap = oneFreed := third ▸ rfl
  obtain ⟨step₄, careful₄⟩ := takes_malloc (n := 5) (p := 0x4006) heap₃ (by decide)
    (by decide +kernel) (by decide +kernel) (by decide +kernel) (by decide +kernel)
  generalize fourth : Owned.gain s₃ _ _ _ = s₄ at step₄
  have heap₄ : s₄.heap = reused := fourth ▸ rfl
  have other : object 0x4014 20 ≠ object 0x4006 8 := by
    intro same
    exact absurd (congrArg (fun o : Object => o.len) same) (by decide)
  have live₄ : object 0x4014 20 ∈ s₄.live :=
    fourth ▸ Set.mem_insert_of_mem _ (third ▸ ⟨live₂, other⟩)
  have moved : ReAlloc generousKernel 1 s₄.heap 0x4014 100 =
      ((ReAlloc generousKernel 1 reused 0x4014 100).1, .block 0x403A) := by
    rw [heap₄]
    exact Prod.ext rfl (by decide +kernel)
  have step₅ := step_reAlloc generousKernel 1 live₄ (by decide) moved
  have fits₅ : Fits generousKernel 1 s₄.heap 100 := by
    rw [heap₄]
    exact fits_of_room _ (by decide +kernel) (by decide +kernel) (by decide +kernel)
  obtain ⟨careful, reached⟩ : Meets (step generousKernel 1) (Careful generousKernel 1)
        ⟨{ idleHeap with ram := fun _ => 0 }, ∅, ∅⟩ busyCalls ∧
      run (step generousKernel 1) ⟨{ idleHeap with ram := fun _ => 0 }, ∅, ∅⟩ busyCalls = some _ :=
    meets_run_cons step₁ careful₁ <| meets_run_cons step₂ careful₂ <|
      meets_run_cons step₃ trivial <| meets_run_cons step₄ careful₄ <|
      meets_run_cons step₅ (fun _ => ⟨by decide, fits₅⟩) ⟨trivial, run_nil _⟩
  refine ⟨_, reached, ⟨Set.mem_insert _ _, fun same => ?_⟩, Set.mem_insert _ _,
    (lifetimes_sound generousKernel 1 (fun _ => 0) generousKernel_grants busyCalls _ careful
      reached).1⟩
  exact absurd (congrArg (fun o : Object => o.len) same) (by decide)

/-- The third large block goes over the last address. -/
theorem not_sound_threeBlocks : ∃ s,
    run (step generousKernel 3) ⟨idleHeap, ∅, ∅⟩
      [.malloc 16384, .malloc 16384, .malloc 16384] = some s ∧ ¬Sound s := by
  generalize one : (Malloc generousKernel 3 idleHeap 16384).1 = first
  have returned : Malloc generousKernel 3 idleHeap 16384 = (first, .block 0x4006) :=
    Prod.ext one
      (show (Malloc generousKernel 3 idleHeap 16384).2 = .block 0x4006 by decide +kernel)
  generalize two : (Malloc generousKernel 3 first 16384).1 = second
  have returned' : Malloc generousKernel 3 first 16384 = (second, .block 0x800C) :=
    Prod.ext two (by
      rw [← one]
      show (Malloc generousKernel 3 _ 16384).2 = .block 0x800C
      decide +kernel)
  generalize three : (Malloc generousKernel 3 second 16384).1 = third
  have returned'' : Malloc generousKernel 3 second 16384 = (third, .block 0xC012) :=
    Prod.ext three (by
      rw [← two, ← one]
      show (Malloc generousKernel 3 _ 16384).2 = .block 0xC012
      decide +kernel)
  refine ⟨_, run_cons_eq_some.mpr ⟨_, step_malloc _ _ returned, run_cons_eq_some.mpr
    ⟨_, step_malloc _ _ returned', run_cons_eq_some.mpr ⟨_, step_malloc _ _ returned'', rfl⟩⟩⟩, ?_⟩
  intro sound
  have inside := (sound.inside _ (Set.mem_insert _ _)).2
  have limit := third.heap_max.toNat_lt
  have large : capOf (bucketOf 16384) = 16384 := by decide +kernel
  have place : (0xC012 : Word).toNat = 0xC012 := rfl
  have inside : (0xC012 : Word).toNat + capOf (bucketOf 16384) ≤ third.heap_max.toNat := inside
  omega

end Frobio.Froblib
