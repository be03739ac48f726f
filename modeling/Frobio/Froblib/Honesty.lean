/-
This file shows for which sizes `Malloc` is honest: what it returns is a block of at least
that size, and it returns nothing only after it has reported that the memory is exhausted.

The sizes are words, the capacities are `int`s. From 32768 on a size is negative and fits
the smallest bucket, and below that no bucket is larger than 16384.
-/

import Frobio.Froblib.Malloc

namespace Frobio.Froblib

/-! ### The law -/

/-- The capacity that the header of a block says it has. -/
def capacity (heap : Heap) (p : Word) : Word := getWord heap.ram (p - headSize + 3)

def Report.isOom : Report → Prop
  | .oom .. => True
  | _ => False

/-- `Malloc` of a size from a heap, whatever fuel it is given. Without a block the program has
ended, or `Malloc` calls itself on and on and has reported this by the second call. -/
structure SizeHonest (kernel : Kernel) (heap : Heap) (n : Word) : Prop where
  inTable : ∀ fuel heap' b, Malloc kernel fuel heap n ≠ (heap', .outOfTable b)
  roomy : ∀ fuel heap' p, Malloc kernel fuel heap n = (heap', .block p) → n ≤ capacity heap' p
  reported : ∀ fuel heap', Malloc kernel (fuel + 2) heap n = (heap', .unfinished) →
    ∃ new, heap'.reports = heap.reports ++ new ∧ ∃ r ∈ new, r.isOom

/-! ### Signed words -/

theorem toInt_toInt16 (n : Word) :
    n.toInt16.toInt = if n.toNat < 32768 then (n.toNat : Int) else n.toNat - 65536 := by
  show n.toBitVec.toInt = _
  rw [BitVec.toInt_eq_toNat_cond]
  show (if 2 * n.toNat < 65536 then (n.toNat : Int) else n.toNat - 65536) = _
  by_cases small : n.toNat < 32768
  · rw [if_pos small, if_pos (by omega)]
  · rw [if_neg small, if_neg (by omega)]

theorem toNat_toUInt16 {cap : Int16} (positive : 0 ≤ cap.toInt) :
    (cap.toUInt16.toNat : Int) = cap.toInt := by
  have same := toInt_toInt16 cap.toUInt16
  rw [Int16.toInt16_toUInt16] at same
  have small := cap.toUInt16.toNat_lt
  split at same <;> omega

theorem toInt_double {cap : Int16} (small : cap.toInt < 16384) (positive : 0 ≤ cap.toInt) :
    (cap + cap).toInt = 2 * cap.toInt := by
  rw [Int16.toInt_add]
  exact (Int.bmod_eq_of_le (by omega) (by omega)).trans (by omega)

/-! ### Buckets -/

/-- A size of up to 16384 finds a bucket. The capacity doubles with the bucket, so that the last
one, which is not exceeded, has the capacity of 16384. -/
theorem whichBucketLoop_found {n cap : Int16} {rounds b : Nat} (some : 0 < rounds)
    (tables : b + rounds = NBUCKETS) (doubled : cap.toInt = 8 * 2 ^ b) (fits : n.toInt ≤ 16384) :
    (whichBucketLoop n rounds b cap).1 < NBUCKETS ∧
      n.toInt ≤ (whichBucketLoop n rounds b cap).2.toInt ∧
      8 ≤ (whichBucketLoop n rounds b cap).2.toInt ∧
      (whichBucketLoop n rounds b cap).2.toInt ≤ 16384 := by
  induction rounds generalizing b cap with
  | zero => cases some
  | succ rounds inductionHypothesis =>
    have buckets : NBUCKETS = 12 := rfl
    have low : b ≤ 11 := by omega
    have least : (1 : Int) ≤ 2 ^ b := one_le_pow₀ (by decide)
    have most : (2 : Int) ^ b ≤ 2 ^ 11 := pow_le_pow_right₀ (by decide) low
    rw [whichBucketLoop]
    by_cases enough : n ≤ cap
    · have smallest : 8 ≤ cap.toInt := by omega
      have largest : cap.toInt ≤ 16384 := by omega
      rw [if_pos enough]
      exact ⟨by omega, Int16.le_iff_toInt_le.mp enough, smallest, largest⟩
    · rw [if_neg enough]
      have larger : cap.toInt < n.toInt := Int.not_le.mp fun le => enough (Int16.le_iff_toInt_le.mpr le)
      have again : (cap + cap).toInt = 8 * 2 ^ (b + 1) := by
        rw [toInt_double (by omega) (by omega), pow_succ]
        omega
      have left : 0 < rounds := by
        by_contra none
        have last : b = 11 := by omega
        rw [last] at doubled
        omega
      exact inductionHypothesis left (by omega) again

/-- No bucket is found for a larger one. -/
theorem whichBucketLoop_tooBig {n cap : Int16} {rounds b : Nat}
    (tables : b + rounds = NBUCKETS) (doubled : 0 < rounds → cap.toInt = 8 * 2 ^ b)
    (tooBig : 16384 < n.toInt) : (whichBucketLoop n rounds b cap).1 = NBUCKETS := by
  induction rounds generalizing b cap with
  | zero => exact tables
  | succ rounds inductionHypothesis =>
    have buckets : NBUCKETS = 12 := rfl
    have value := doubled (Nat.succ_pos rounds)
    have most : (2 : Int) ^ b ≤ 2 ^ 11 := pow_le_pow_right₀ (by decide) (by omega)
    have least : (1 : Int) ≤ 2 ^ b := one_le_pow₀ (by decide)
    have smaller : ¬n ≤ cap := fun le => by
      have := Int16.le_iff_toInt_le.mp le
      omega
    rw [whichBucketLoop, if_neg smaller]
    refine inductionHypothesis (by omega) fun more => ?_
    have below : (2 : Int) ^ b ≤ 2 ^ 10 := pow_le_pow_right₀ (by decide) (by omega)
    rw [toInt_double (by omega) (by omega), pow_succ]
    omega

/-- A size of up to 16384 gets a bucket of the table with enough room. -/
theorem which_bucket_of_le {n : Word} (small : n ≤ 16384) :
    ∃ b cap, b < NBUCKETS ∧ (∀ heap, which_bucket heap n.toInt16 = (heap, b, cap)) ∧
      n ≤ cap.toUInt16 ∧ cap.toUInt16 ≤ 16384 := by
  have small : n.toNat ≤ 16384 := small
  have value := toInt_toInt16 n
  rw [if_pos (by omega)] at value
  have search := @whichBucketLoop_found n.toInt16 SMALLEST_BUCKET NBUCKETS 0 (by decide) rfl
    (by decide) (by omega)
  cases found : whichBucketLoop n.toInt16 NBUCKETS 0 SMALLEST_BUCKET with
  | mk b cap =>
    rw [found] at search
    obtain ⟨inTable, enough, least, most⟩ := search
    have inTable : b < NBUCKETS := inTable
    have enough : n.toInt16.toInt ≤ cap.toInt := enough
    have least : 8 ≤ cap.toInt := least
    have most : cap.toInt ≤ 16384 := most
    have word := @toNat_toUInt16 cap (by omega)
    refine ⟨b, cap, inTable, fun heap => ?_, UInt16.le_iff_toNat_le.mpr (by omega),
      UInt16.le_iff_toNat_le.mpr ?_⟩
    · rw [which_bucket, found]
      dsimp only
      rw [if_neg (Nat.not_le.mpr inTable)]
    · show cap.toUInt16.toNat ≤ 16384
      omega

/-- Above that, no bucket is found, and the report does not end the search. -/
theorem which_bucket_of_middle {n : Word} (tooBig : 16384 < n) (positive : n < 32768) (heap : Heap) :
    ∃ cap, which_bucket heap n.toInt16 = (heap.report (.tooBig n.toInt16), NBUCKETS, cap) := by
  have tooBig : 16384 < n.toNat := tooBig
  have positive : n.toNat < 32768 := positive
  have value := toInt_toInt16 n
  rw [if_pos positive] at value
  have last := @whichBucketLoop_tooBig n.toInt16 SMALLEST_BUCKET NBUCKETS 0 rfl
    (fun _ => by decide) (by omega)
  cases found : whichBucketLoop n.toInt16 NBUCKETS 0 SMALLEST_BUCKET with
  | mk b cap =>
    rw [found] at last
    have last : b = NBUCKETS := last
    refine ⟨cap, ?_⟩
    rw [which_bucket, found, last]
    rfl

/-- A size that is negative fits the smallest bucket. -/
theorem which_bucket_of_negative {n : Word} (negative : 32768 ≤ n) (heap : Heap) :
    which_bucket heap n.toInt16 = (heap, 0, 8) := by
  have negative : 32768 ≤ n.toNat := negative
  have below := n.toNat_lt
  have value := toInt_toInt16 n
  rw [if_neg (by omega)] at value
  have fits : n.toInt16 ≤ SMALLEST_BUCKET := by
    refine Int16.le_iff_toInt_le.mpr ?_
    show n.toInt16.toInt ≤ 8
    omega
  have first : whichBucketLoop n.toInt16 NBUCKETS 0 SMALLEST_BUCKET = (0, SMALLEST_BUCKET) :=
    if_pos fits
  rw [which_bucket, first]
  rfl

/-! ### Headers -/

theorem getWord_putWord (ram : Ram) (address word : Word) :
    getWord (putWord ram address word) address = word := by
  have apart : address ≠ address + 1 := by
    intro same
    have : (0 : Word) = 1 := add_left_cancel ((add_zero address).trans same)
    cases this
  have high : putWord ram address word address = UInt8.ofNat (word.toNat / 256) := by
    rw [putWord, putByte, Function.update_of_ne apart, putByte, Function.update_self]
  have low : putWord ram address word (address + 1) = UInt8.ofNat word.toNat :=
    Function.update_self _ _ _
  have small := word.toNat_lt
  rw [getWord, high, low]
  refine UInt16.toNat.inj ?_
  rw [UInt16.toNat_ofNat', UInt8.toNat_ofNat', UInt8.toNat_ofNat']
  omega

/-- A word elsewhere, two or more bytes above. -/
theorem getWord_putWord_of_apart {ram : Ram} {address other word : Word}
    (before : other - address ≠ 0 ∧ other - address ≠ 1)
    (behind : other + 1 - address ≠ 0 ∧ other + 1 - address ≠ 1) :
    getWord (putWord ram address word) other = getWord ram other := by
  have apart {a : Word} (first : a - address ≠ 0) (second : a - address ≠ 1) :
      putWord ram address word a = ram a := by
    have notFirst : a ≠ address := fun same => first (sub_eq_zero.mpr same)
    have notSecond : a ≠ address + 1 := fun same => second (by rw [same, add_sub_cancel_left])
    rw [putWord, putByte, Function.update_of_ne notSecond, putByte, Function.update_of_ne notFirst]
  rw [getWord, getWord, apart before.1 before.2, apart behind.1 behind.2]

theorem clear_of_not_lt {ram : Ram} {address count a : Word} (outside : ¬a - address < count) :
    clear ram address count a = ram a := if_neg outside

/-- Clearing a block leaves the capacity in its header. -/
theorem capacity_cleared {heap : Heap} {h cap : Word} {ram : Ram} (small : cap ≤ 16384)
    (held : getWord ram (h + 3) = cap) (cleared : heap.ram = clear ram (h + headSize) cap) :
    capacity heap (h + headSize) = cap := by
  have small : cap.toNat ≤ 16384 := small
  have third : h + 3 - (h + headSize) = 65533 := by
    rw [add_sub_add_left_eq_sub]
    rfl
  have fourth : h + 3 + 1 - (h + headSize) = 65534 := by
    rw [add_assoc, add_sub_add_left_eq_sub]
    rfl
  have outside : ∀ a : Word, 65533 ≤ a.toNat → ¬a < cap := by
    intro a far near
    have near : a.toNat < cap.toNat := near
    omega
  rw [capacity, add_sub_cancel_right, cleared, getWord, clear_of_not_lt
    (by rw [third]; exact outside _ (by decide)), clear_of_not_lt
    (by rw [fourth]; exact outside _ (by decide))]
  exact held

/-! ### One call -/

variable {kernel : Kernel}

/-- The branches of `Malloc` for a size that has a bucket. -/
theorem Malloc_of_found {n : Word} {b : Nat} {cap : Int16} (inTable : b < NBUCKETS)
    (found : ∀ heap, which_bucket heap n.toInt16 = (heap, b, cap)) (fuel : Nat) (heap : Heap) :
    Malloc kernel (fuel + 1) heap n =
      let heap' := started kernel heap n
      if heap.heap_max = 0 ∧ heap'.heap_max < heap'.heap_min then (heap', .stopped)
      else if heap'.buck_freelist ⟨b, inTable⟩ ≠ 0 then
        ((reuse heap' ⟨b, inTable⟩ cap.toUInt16).1,
          .block (reuse heap' ⟨b, inTable⟩ cap.toUInt16).2)
      else if heap'.heap_max < heap'.heap_here + (cap.toUInt16 + headSize) then
        retried (Malloc kernel fuel (extend kernel heap' n cap.toUInt16) n)
      else
        ((carve heap' cap.toUInt16 (heap'.heap_here + (cap.toUInt16 + headSize))).1,
          .block (carve heap' cap.toUInt16 (heap'.heap_here + (cap.toUInt16 + headSize))).2) := by
  rw [Malloc]
  simp only [found, dif_pos inTable]

/-! ### Reports -/

/-- Reports are only added, and exhaustion is one of those that were. -/
def OomSince (heap heap' : Heap) : Prop :=
  ∃ new, heap'.reports = heap.reports ++ new ∧ ∃ r ∈ new, r.isOom

theorem OomSince.grow {heap heap' last : Heap} (oom : OomSince heap heap')
    (grows : heap'.reports <+: last.reports) : OomSince heap last := by
  obtain ⟨new, same, r, member, isOom⟩ := oom
  obtain ⟨more, grown⟩ := grows
  exact ⟨new ++ more, by rw [← grown, same, List.append_assoc], r,
    List.mem_append_left _ member, isOom⟩

theorem OomSince.after {heap heap' last : Heap} (grows : heap.reports <+: heap'.reports)
    (oom : OomSince heap' last) : OomSince heap last := by
  obtain ⟨new, same, r, member, isOom⟩ := oom
  obtain ⟨more, grown⟩ := grows
  exact ⟨more ++ new, by rw [same, ← grown, List.append_assoc], r,
    List.mem_append_right _ member, isOom⟩

theorem askMem_kept (kernel : Kernel) (heap : Heap) (size last n cap : Word) :
    heap.reports <+: (askMem kernel heap size last n cap).1.reports ∧
      (askMem kernel heap size last n cap).1.heap_retry = heap.heap_retry := by
  rw [askMem]
  cases kernel heap.asked size with
  | ok answer => exact ⟨List.prefix_rfl, rfl⟩
  | error e => exact ⟨List.prefix_append _ _, rfl⟩

theorem started_kept (kernel : Kernel) (heap : Heap) (n : Word) :
    heap.reports <+: (started kernel heap n).reports ∧
      (started kernel heap n).heap_retry = heap.heap_retry := by
  rw [started]
  split
  · rw [firstMalloc]
    obtain ⟨reports, retry⟩ := askMem_kept kernel heap 0 0 n 0
    generalize askMem kernel heap 0 0 n 0 = asked at reports retry
    obtain ⟨first, size, last⟩ := asked
    obtain ⟨reports', retry'⟩ := askMem_kept kernel
      { first with heap_min := last, heap_here := last } ((last + 0x2000) &&& 0xE000) last n 0
    exact ⟨reports.trans reports', retry'.trans retry⟩
  · exact ⟨List.prefix_rfl, rfl⟩

theorem reports_extend (kernel : Kernel) (heap : Heap) (n cap : Word) :
    (if heap.heap_retry then mallocOOM heap 255 n cap else heap).reports <+:
      (extend kernel heap n cap).reports := (askMem_kept kernel _ _ _ _ _).1

theorem reports_extend_of_heap (kernel : Kernel) (heap : Heap) (n cap : Word) :
    heap.reports <+: (extend kernel heap n cap).reports := by
  refine List.IsPrefix.trans ?_ (reports_extend kernel heap n cap)
  split
  · exact List.prefix_append _ _
  · exact List.prefix_rfl

/-- The second call of a retry reports that the memory is exhausted. -/
theorem oomSince_extend (kernel : Kernel) {heap : Heap} (retry : heap.heap_retry = true)
    (n cap : Word) : OomSince heap (extend kernel heap n cap) := by
  have first : OomSince heap (mallocOOM heap 255 n cap) :=
    ⟨[.oom 255 n cap heap.heap_here heap.heap_max], rfl, _, List.mem_singleton.mpr rfl, trivial⟩
  have grows := reports_extend kernel heap n cap
  rw [if_pos retry] at grows
  exact first.grow grows

theorem retried_cases (result : Heap × Outcome) :
    (retried result).2 = result.2 ∧ (retried result).1.reports = result.1.reports ∧
      (retried result).1.ram = result.1.ram := by
  obtain ⟨heap, outcome⟩ := result
  cases outcome <;> exact ⟨rfl, rfl, rfl⟩

/-! ### Honest sizes -/

section

variable {n : Word} {b : Nat} {cap : Int16} (inTable : b < NBUCKETS)
  (found : ∀ heap, which_bucket heap n.toInt16 = (heap, b, cap))

include inTable found

theorem reports_Malloc (fuel : Nat) (heap : Heap) :
    heap.reports <+: (Malloc kernel fuel heap n).1.reports := by
  induction fuel generalizing heap with
  | zero => exact List.prefix_rfl
  | succ fuel inductionHypothesis =>
    refine (started_kept kernel heap n).1.trans ?_
    rw [Malloc_of_found inTable found]
    dsimp only
    generalize started kernel heap n = heap'
    split
    · exact List.prefix_rfl
    split
    · show _ <+: (heap_check_block _ _ _).reports
      rw [heap_check_block]
      split
      · exact List.prefix_append _ _
      · exact List.prefix_rfl
    split
    · rw [(retried_cases _).2.1]
      exact (reports_extend_of_heap kernel heap' n _).trans (inductionHypothesis _)
    · exact List.prefix_rfl

/-- A retry that does not come to an end was reported. -/
theorem oomSince_of_retry {heap heap' : Heap} (retry : heap.heap_retry = true) {fuel : Nat}
    (endless : Malloc kernel (fuel + 1) heap n = (heap', .unfinished)) : OomSince heap heap' := by
  have retry : (started kernel heap n).heap_retry = true := (started_kept kernel heap n).2.trans retry
  refine OomSince.after (started_kept kernel heap n).1 ?_
  rw [Malloc_of_found inTable found] at endless
  dsimp only at endless
  generalize started kernel heap n = first at endless retry
  split at endless
  · cases endless
  split at endless
  · cases endless
  split at endless
  · have same := (retried_cases (Malloc kernel fuel (extend kernel first n cap.toUInt16) n)).2.1
    rw [endless] at same
    refine (oomSince_extend kernel retry n cap.toUInt16).grow ?_
    rw [same]
    exact reports_Malloc inTable found fuel _
  · cases endless

theorem oomSince_of_unfinished {heap heap' : Heap} {fuel : Nat}
    (endless : Malloc kernel (fuel + 2) heap n = (heap', .unfinished)) : OomSince heap heap' := by
  refine OomSince.after (started_kept kernel heap n).1 ?_
  rw [Malloc_of_found inTable found] at endless
  dsimp only at endless
  generalize started kernel heap n = first at endless
  split at endless
  · cases endless
  split at endless
  · cases endless
  split at endless
  · obtain ⟨outcome, reports, -⟩ :=
      retried_cases (Malloc kernel (fuel + 1) (extend kernel first n cap.toUInt16) n)
    rw [endless] at outcome reports
    refine OomSince.after (reports_extend_of_heap kernel first n cap.toUInt16) ?_
    have retry : (extend kernel first n cap.toUInt16).heap_retry = true := rfl
    have inner := @oomSince_of_retry kernel n b cap inTable found _
      (Malloc kernel (fuel + 1) (extend kernel first n cap.toUInt16) n).1 retry fuel
      (Prod.ext rfl outcome.symm)
    exact inner.grow (reports ▸ List.prefix_rfl)
  · cases endless

theorem Malloc_inTable (fuel : Nat) (heap heap' : Heap) (index : Nat) :
    Malloc kernel fuel heap n ≠ (heap', .outOfTable index) := by
  induction fuel generalizing heap heap' with
  | zero => nofun
  | succ fuel inductionHypothesis =>
    intro outside
    rw [Malloc_of_found inTable found] at outside
    dsimp only at outside
    generalize started kernel heap n = first at outside
    split at outside
    · cases outside
    split at outside
    · cases outside
    split at outside
    · have outcome :=
        (retried_cases (Malloc kernel fuel (extend kernel first n cap.toUInt16) n)).1
      rw [outside] at outcome
      exact inductionHypothesis _ _ (Prod.ext rfl outcome.symm)
    · cases outside

/-- The block has the capacity of the bucket. -/
theorem capacity_Malloc (small : cap.toUInt16 ≤ 16384) {fuel : Nat} {heap heap' : Heap} {p : Word}
    (returned : Malloc kernel fuel heap n = (heap', .block p)) :
    capacity heap' p = cap.toUInt16 := by
  induction fuel generalizing heap heap' with
  | zero => cases returned
  | succ fuel inductionHypothesis =>
    rw [Malloc_of_found inTable found] at returned
    dsimp only at returned
    generalize started kernel heap n = first at returned
    split at returned
    · cases returned
    split at returned
    · cases returned
      have checked (heap : Heap) (h cap : Word) : (heap_check_block heap h cap).ram = heap.ram := by
        rw [heap_check_block]
        split <;> rfl
      refine capacity_cleared small (getWord_putWord first.ram _ _) ?_
      show clear (heap_check_block _ _ _).ram _ _ = _
      rw [checked]
    split at returned
    · obtain ⟨outcome, -, ram⟩ :=
        retried_cases (Malloc kernel fuel (extend kernel first n cap.toUInt16) n)
      rw [returned] at outcome ram
      have inner := inductionHypothesis (Prod.ext rfl outcome.symm :
        Malloc kernel fuel (extend kernel first n cap.toUInt16) n =
          ((Malloc kernel fuel (extend kernel first n cap.toUInt16) n).1, .block p))
      rw [capacity] at inner ⊢
      rw [ram]
      exact inner
    · cases returned
      refine capacity_cleared small ?_ rfl
      have third : first.heap_here + 3 - (first.heap_here + 1) = 2 := by
        rw [add_sub_add_left_eq_sub]
        rfl
      have fourth : first.heap_here + 3 + 1 - (first.heap_here + 1) = 3 := by
        rw [add_assoc, add_sub_add_left_eq_sub]
        rfl
      rw [getWord_putWord_of_apart (by rw [third]; decide) (by rw [fourth]; decide),
        getWord_putWord]

end

/-- Up to the largest bucket `Malloc` is honest in every heap and with every kernel. -/
theorem sizeHonest_of_le {n : Word} (small : n ≤ 16384) (heap : Heap) :
    SizeHonest kernel heap n := by
  obtain ⟨b, cap, inTable, found, enough, most⟩ := which_bucket_of_le small
  refine ⟨fun fuel heap' => Malloc_inTable inTable found fuel heap heap', ?_, ?_⟩
  · intro fuel heap' p returned
    rw [capacity_Malloc inTable found most returned]
    exact enough
  · intro fuel heap' endless
    exact oomSince_of_unfinished inTable found endless

/-! ### The other sizes -/

/-- Before the first call of a program. -/
def idleHeap : Heap := ⟨0, 0, 0, false, fun _ => 0, fun _ => 0, [], 0⟩

/-- A kernel that gives all that is asked for, in a process of 0x4000 bytes. -/
def generousKernel : Kernel := fun _ size => .ok (max size 0x4000, max size 0x4000)

theorem not_sizeHonest_middle {n : Word} (tooBig : 16384 < n) (positive : n < 32768) :
    ¬SizeHonest generousKernel idleHeap n := by
  intro honest
  obtain ⟨cap, found⟩ := which_bucket_of_middle tooBig positive (started generousKernel idleHeap n)
  refine honest.inTable 1 ((started generousKernel idleHeap n).report (.tooBig n.toInt16))
    NBUCKETS ?_
  have bounds : ¬(idleHeap.heap_max = 0 ∧ (started generousKernel idleHeap n).heap_max <
      (started generousKernel idleHeap n).heap_min) := by
    show ¬((0 : Word) = 0 ∧ (0x6000 : Word) < 0x4000)
    decide
  rw [Malloc]
  simp only [if_neg bounds, found]
  exact dif_neg (lt_irrefl NBUCKETS)

theorem not_sizeHonest_negative {n : Word} (negative : 32768 ≤ n) :
    ¬SizeHonest generousKernel idleHeap n := by
  intro honest
  have found := which_bucket_of_negative negative
  have inTable : 0 < NBUCKETS := by decide
  have bounds : ¬(idleHeap.heap_max = 0 ∧ (started generousKernel idleHeap n).heap_max <
      (started generousKernel idleHeap n).heap_min) := by
    show ¬((0 : Word) = 0 ∧ (0x6000 : Word) < 0x4000)
    decide
  have none : ¬(started generousKernel idleHeap n).buck_freelist ⟨0, inTable⟩ ≠ 0 :=
    not_not_intro rfl
  have room : ¬(started generousKernel idleHeap n).heap_max <
      (started generousKernel idleHeap n).heap_here + (Int16.toUInt16 8 + headSize) := by
    show ¬(0x6000 : Word) < 0x4000 + 14
    decide
  have returned := @Malloc_of_found generousKernel n 0 8 inTable found 0 idleHeap
  dsimp only at returned
  rw [if_neg bounds, if_neg none, if_neg room] at returned
  have least := honest.roomy _ _ _ returned
  rw [capacity_Malloc inTable found (by decide) returned] at least
  have large : 32768 ≤ n.toNat := negative
  have small : n.toNat ≤ 8 := least
  omega

/-- `Malloc` is honest about a size, in every heap and with every kernel, just when the size is at
most the capacity of the largest bucket. -/
theorem sizeHonest_iff (n : Word) :
    (∀ kernel heap, SizeHonest kernel heap n) ↔ n ≤ 16384 := by
  constructor
  · intro honest
    by_contra more
    have tooBig : 16384 < n := UInt16.not_le.mp more
    by_cases positive : n < 32768
    · exact not_sizeHonest_middle tooBig positive (honest _ _)
    · exact not_sizeHonest_negative (UInt16.not_lt.mp positive) (honest _ _)
  · exact fun small _ heap => sizeHonest_of_le small heap

/-- The first call of a program gets a block of eight bytes for 32768. -/
theorem not_sizeHonest_32768 : ¬SizeHonest generousKernel idleHeap 32768 := by
  intro honest
  have least := honest.roomy 1 _ 0x4006 (Prod.ext rfl (by decide +kernel))
  revert least
  decide +kernel

end Frobio.Froblib
