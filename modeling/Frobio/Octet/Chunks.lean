/-
This file is about heaps of `octet/octet2.c` whose arena is tiled by chunks, and about what
changes in them when a chunk is released to the list of its bucket, which both `ofree` and
the sweep do.
-/

import Frobio.Lib.Arena
import Frobio.Octet.Heap

namespace Frobio.Octet

open Memory Arena

/-! ### Bytes and words -/

theorem oputb_apply (memory : Nat → UInt8) (a : Nat) (b : UInt8) (x : Nat) :
    oputb memory a b x = if x = a then b else memory x := by
  rw [oputb]
  split
  · rename_i same
    have inside : 0 < [b].length := Nat.one_pos
    exact same ▸ store_apply_of_lt memory inside
  · rename_i other
    rcases Nat.lt_or_gt_of_ne other with before | after
    · exact store_apply_of_before memory _ before
    · exact store_apply_of_after memory after

theorem ozero_apply (memory : Nat → UInt8) (p len x : Nat) :
    ozero memory p len x = if p ≤ x ∧ x < p + len then 0 else memory x := by
  rw [ozero]
  split
  · rename_i inside
    obtain ⟨i, rfl⟩ := Nat.exists_eq_add_of_le inside.1
    have short : i < (List.replicate len (0 : UInt8)).length := by
      rw [List.length_replicate]
      omega
    rw [store_apply_of_lt _ short, List.getElem_replicate]
  · rename_i outside
    rcases Nat.lt_or_ge x p with before | after
    · exact store_apply_of_before _ _ before
    · refine store_apply_of_after _ ?_
      rw [List.length_replicate]
      omega

theorem oputw_apply_of_outside (memory : Nat → UInt8) {a w x : Nat} (outside : x < a ∨ a + 2 ≤ x) :
    oputw memory a w x = memory x := by
  rcases outside with before | after
  · exact store_apply_of_before _ _ before
  · exact store_apply_of_after _ after

theorem ogetw_oputw (memory : Nat → UInt8) (a : Nat) {w : Nat} (word : w < 65536) :
    ogetw (oputw memory a w) a = w := by
  have first : 0 < [UInt8.ofNat (w / 256), UInt8.ofNat w].length := Nat.two_pos
  have second : 1 < [UInt8.ofNat (w / 256), UInt8.ofNat w].length := Nat.one_lt_two
  have high : oputw memory a w a = UInt8.ofNat (w / 256) := store_apply_of_lt memory first
  have low : oputw memory a w (a + 1) = UInt8.ofNat w := store_apply_of_lt memory second
  rw [ogetw, high, low, UInt8.toNat_ofNat', UInt8.toNat_ofNat']
  omega

theorem ogetw_congr {first second : Nat → UInt8} {a : Nat} (high : first a = second a)
    (low : first (a + 1) = second (a + 1)) : ogetw first a = ogetw second a := by
  rw [ogetw, ogetw, high, low]

/-! ### The bucket and its mark -/

theorem toNat_masked (x : UInt8) : (x &&& BUCK_MASK).toNat = x.toNat % 128 := by
  rw [UInt8.toNat_and]
  exact Nat.and_two_pow_sub_one_eq_mod x.toNat 7

/-- A valid bucket has no mark. -/
theorem masked_of_valid {x : UInt8} (valid : x.toNat < NUM_BUCKETS) : x &&& BUCK_MASK = x := by
  have small : x.toNat < 16 := valid
  refine UInt8.toNat_inj.mp ?_
  rw [toNat_masked]
  omega

@[simp] theorem masked_masked (x : UInt8) : x &&& BUCK_MASK &&& BUCK_MASK = x &&& BUCK_MASK := by
  rw [UInt8.and_assoc]
  rfl

/-- The mark does not change what is under the mask. -/
theorem marked_masked (x : UInt8) : (BUCK_MARK_BIT ||| x) &&& BUCK_MASK = x &&& BUCK_MASK := by
  rw [UInt8.and_comm, UInt8.and_comm x]
  refine UInt8.toNat_inj.mp ?_
  rw [UInt8.toNat_and, UInt8.toNat_or, Nat.and_or_distrib_left, UInt8.toNat_and]
  exact Nat.zero_or _

/-- Under the mask no bucket has its mark. -/
theorem mark_masked (x : UInt8) : BUCK_MARK_BIT &&& (BUCK_MASK &&& x) = 0 := by
  rw [← UInt8.and_assoc]
  exact UInt8.zero_and

/-! ### Chunks -/

def capOf (buck : Nat) : Nat := OBucketCap.getD buck 0

theorem capOf_bounds {buck : Nat} (valid : buck < NUM_BUCKETS) :
    4 ≤ capOf buck ∧ capOf buck ≤ 1024 ∧ capOf buck % 2 = 0 := by
  have all : ∀ b < NUM_BUCKETS, 4 ≤ capOf b ∧ capOf b ≤ 1024 ∧ capOf b % 2 = 0 := by decide
  exact all buck valid

namespace Heap

/-- What the header of a chunk says when the mark is masked. -/
def view (h : Heap) : View Nat where
  size c := HDR_SIZE + capOf (h.buck c &&& BUCK_MASK).toNat
  next c := ogetw h.memory (c + HDR_SIZE)
  kind c := (h.buck c &&& BUCK_MASK).toNat

theorem size_view (h : Heap) (c : Nat) : h.view.size c = HDR_SIZE + capOf (h.view.kind c) := rfl

end Heap

/-- The arena is tiled by the chunks, whose buckets are valid and have no mark. -/
structure TiledBy (h : Heap) (chunks : List Nat) : Prop where
  tiles : Tiles h.view.size h.oRamBegin chunks h.oRamUsed
  valid : ∀ c ∈ chunks, (h.buck c).toNat < NUM_BUCKETS
  positive : 0 < h.oRamBegin
  bounded : h.oRamUsed < 65536

theorem Heap.kind_of_valid {h : Heap} {c : Nat} (valid : (h.buck c).toNat < NUM_BUCKETS) :
    h.view.kind c = (h.buck c).toNat :=
  congrArg UInt8.toNat (masked_of_valid valid)

/-- With a valid bucket, nothing is read behind the table. -/
theorem Heap.cap_of_valid (beyond : (Nat → UInt8) → Nat → Nat) (h : Heap) {buck : UInt8}
    (valid : buck.toNat < NUM_BUCKETS) : h.cap beyond buck = capOf buck.toNat := by
  have inside : buck.toNat < OBucketCap.length := valid
  rw [Heap.cap, capOf, List.getD_eq_getElem?_getD, List.getD_eq_getElem?_getD,
    List.getElem?_eq_getElem inside, Option.getD_some, Option.getD_some]

/-! ### Changes in one chunk -/

/-- Memory changes in the chunk alone. -/
def OnlyIn (h h' : Heap) (c : Nat) : Prop :=
  ∀ a, a < c ∨ c + h.view.size c ≤ a → h'.memory a = h.memory a

section

variable {h h' : Heap} {c d : Nat} {chunks : List Nat} {first last : Nat}

theorem OnlyIn.memory_of_ne (only : OnlyIn h h' c) (tiles : Tiles h.view.size first chunks last)
    (changed : c ∈ chunks) (member : d ∈ chunks) (differ : d ≠ c) {i : Nat}
    (inside : i < h.view.size d) : h'.memory (d + i) = h.memory (d + i) := by
  refine only _ ?_
  have apart := tiles.apart member changed differ
  omega

theorem OnlyIn.view_of_ne (only : OnlyIn h h' c) (tiles : Tiles h.view.size first chunks last)
    (changed : c ∈ chunks) (member : d ∈ chunks) (differ : d ≠ c)
    (valid : h.view.kind d < NUM_BUCKETS) :
    h'.buck d = h.buck d ∧ h'.cls d = h.cls d ∧ h'.view.next d = h.view.next d := by
  have large : 6 ≤ h.view.size d := by
    have bound := (capOf_bounds valid).1
    rw [Heap.size_view, HDR_SIZE]
    omega
  have same : ∀ i < 4, h'.memory (d + i) = h.memory (d + i) := fun i inside =>
    only.memory_of_ne tiles changed member differ (by omega)
  exact ⟨same 0 (by decide), same 1 (by decide),
    ogetw_congr (same 2 (by decide)) (same 3 (by decide))⟩

/-- The kinds are the same everywhere if they are in the chunk. -/
theorem OnlyIn.kind (only : OnlyIn h h' c) (tiles : Tiles h.view.size first chunks last)
    (changed : c ∈ chunks) (same : h'.view.kind c = h.view.kind c)
    (valid : ∀ d ∈ chunks, h.view.kind d < NUM_BUCKETS) (member : d ∈ chunks) :
    h'.view.kind d = h.view.kind d := by
  by_cases here : d = c
  · exact here ▸ same
  · exact congrArg (fun x : UInt8 => (x &&& BUCK_MASK).toNat)
      (only.view_of_ne tiles changed member here (valid d member)).1

end

/-! ### The release of a chunk -/

/-- The chunk is on the list of its bucket, and nothing is left in it. -/
structure Releases (h h' : Heap) (c : Nat) : Prop where
  outside : OnlyIn h h' c
  kind : h'.view.kind c = h.view.kind c
  cls : h'.cls c = 0
  next : h'.view.next c = h.oBucket (h.view.kind c)
  rest : ∀ i, 2 ≤ i → i < capOf (h.view.kind c) → h'.memory (c + HDR_SIZE + i) = 0
  heads : h'.oBucket = Function.update h.oBucket (h.view.kind c) c
  begins : h'.oRamBegin = h.oRamBegin
  uses : h'.oRamUsed = h.oRamUsed
  ends : h'.oRamEnd = h.oRamEnd
  roots : h'.oMarkRoots = h.oMarkRoots

/-- What both `ofree` and the sweep do. -/
def Heap.release (h : Heap) (c buck cap : Nat) : Heap :=
  ((h.zero (c + HDR_SIZE) cap).setCls c 0).push buck c

/-- The header keeps its bucket. -/
theorem Heap.buck_release {h : Heap} {c : Nat} (buck cap : Nat) :
    (h.release c buck cap).buck c = h.buck c := by
  have header : HDR_SIZE = 2 := rfl
  have link : (h.release c buck cap).memory =
      oputw (oputb (ozero h.memory (c + HDR_SIZE) cap) (c + 1) 0) (c + HDR_SIZE)
        (h.oBucket buck) := rfl
  rw [Heap.buck, link, oputw_apply_of_outside _ (by omega), oputb_apply, if_neg (by omega),
    ozero_apply, if_neg (by omega), Heap.buck]

theorem Heap.release_releases {h : Heap} {c : Nat} (valid : h.view.kind c < NUM_BUCKETS)
    (word : h.oBucket (h.view.kind c) < 65536) :
    Releases h (h.release c (h.view.kind c) (capOf (h.view.kind c))) c := by
  have large := (capOf_bounds valid).1
  have header : HDR_SIZE = 2 := rfl
  have link : (h.release c (h.view.kind c) (capOf (h.view.kind c))).memory =
      oputw (oputb (ozero h.memory (c + HDR_SIZE) (capOf (h.view.kind c))) (c + 1) 0)
        (c + HDR_SIZE) (h.oBucket (h.view.kind c)) := rfl
  refine ⟨fun a outside => ?_, ?_, ?_, ?_, fun i after before => ?_, rfl, rfl, rfl, rfl, rfl⟩
  · rw [Heap.size_view] at outside
    rw [link, oputw_apply_of_outside _ (by omega), oputb_apply, if_neg (by omega), ozero_apply,
      if_neg (by omega)]
  · exact congrArg (fun x : UInt8 => (x &&& BUCK_MASK).toNat) (Heap.buck_release _ _)
  · rw [Heap.cls, link, oputw_apply_of_outside _ (by omega), oputb_apply, if_pos rfl]
  · exact ogetw_oputw _ _ word
  · rw [link, oputw_apply_of_outside _ (by omega), oputb_apply, if_neg (by omega), ozero_apply,
      if_pos (by omega)]

/-- A release preserves the stock. -/
theorem Releases.stocked {h h' : Heap} {c : Nat} {chunks : List Nat} {free free' : Nat → Prop}
    (releases : Releases h h' c)
    (stocked : Stocked h.view h.oBucket free h.oRamBegin chunks h.oRamUsed)
    (valid : ∀ d ∈ chunks, h.view.kind d < NUM_BUCKETS) (positive : 0 < h.oRamBegin)
    (released : c ∈ chunks) (used : ¬free c)
    (frees : ∀ d ∈ chunks, (free' d ↔ d = c ∨ free d)) :
    Stocked h'.view h'.oBucket free' h'.oRamBegin chunks h'.oRamUsed := by
  have kinds : ∀ d ∈ chunks, h'.view.kind d = h.view.kind d := fun d =>
    releases.outside.kind stocked.tiles released releases.kind valid
  have nonzero : c ≠ 0 := by
    have bound := (stocked.tiles.within released).1
    omega
  rw [releases.heads, releases.begins, releases.uses]
  refine stocked.give released used nonzero (fun d member => ?_) kinds releases.next
    (fun d member differ => ?_) frees
  · rw [Heap.size_view, Heap.size_view, kinds d member]
  · exact (releases.outside.view_of_ne stocked.tiles released member differ (valid d member)).2.2

end Frobio.Octet
