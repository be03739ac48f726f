/-
This file models `froblib/malloc.c` for OS-9, and shows for which sizes a block that
`Malloc` returns is as large as it was asked to be.

Words and `int`s have sixteen bits. `Panic` prints its message and returns, so what
follows a report goes on from there; the reports are kept in the order they are made.
`Malloc` calls itself after it has asked for more memory, and may do so without end where
the memory never suffices: there the fuel runs out. The kernel's answers are a parameter.
-/

import Mathlib.Data.UInt
import Mathlib.Tactic

namespace Frobio.Froblib

abbrev Word := UInt16

abbrev Ram := Word → UInt8

/-! ### Words in memory -/

def getWord (ram : Ram) (address : Word) : Word :=
  UInt16.ofNat ((ram address).toNat * 256 + (ram (address + 1)).toNat)

def putByte (ram : Ram) (address : Word) (byte : UInt8) : Ram := Function.update ram address byte

def putWord (ram : Ram) (address word : Word) : Ram :=
  putByte (putByte ram address (UInt8.ofNat (word.toNat / 256))) (address + 1)
    (UInt8.ofNat word.toNat)

/-- `memset` with zero. The addresses wrap around. -/
def clear (ram : Ram) (address count : Word) : Ram := fun a =>
  if a - address < count then 0 else ram a

/-! ### The heap -/

def SMALLEST_BUCKET : Int16 := 8

def NBUCKETS : Nat := 12

/-- `sizeof (struct MallocHead)`: `barrierA`, `next`, `cap` and `barrierZ`. -/
def headSize : Word := 6

inductive Report
  | oom (e : UInt8) (n cap here max : Word)
  | corrupt (h : Word)
  | tooBig (n : Int16)
  | doubleFree
  deriving DecidableEq

/-- `TheHeap` with the memory. The counts of the buckets are only written. -/
structure Heap where
  heap_min : Word
  heap_here : Word
  heap_max : Word
  heap_retry : Bool
  buck_freelist : Fin NBUCKETS → Word
  ram : Ram
  reports : List Report
  /-- The number of calls of `Os9Mem`. -/
  asked : Nat

/-- What the kernel answers to a call of `Os9Mem`: an error, or the new size and end. -/
abbrev Kernel := Nat → Word → Except UInt8 (Word × Word)

def Heap.report (heap : Heap) (r : Report) : Heap := { heap with reports := heap.reports ++ [r] }

def mallocOOM (heap : Heap) (e : UInt8) (n cap : Word) : Heap :=
  heap.report (.oom e n cap heap.heap_here heap.heap_max)

def heap_check_block (heap : Heap) (h cap : Word) : Heap :=
  if heap.ram h ≠ 65 ∨ heap.ram (h + 5) ≠ 90 ∨ cap ≠ 0 ∧ getWord heap.ram (h + 3) ≠ cap then
    heap.report (.corrupt h)
  else heap

/-! ### Buckets -/

/-- The loop of `which_bucket`, with the rounds that are left. -/
def whichBucketLoop (n : Int16) : Nat → Nat → Int16 → Nat × Int16
  | 0, b, cap => (b, cap)
  | rounds + 1, b, cap =>
    if n ≤ cap then (b, cap) else whichBucketLoop n rounds (b + 1) (cap + cap)

/-- The bucket and its capacity. The caller passes a word for the `int`. -/
def which_bucket (heap : Heap) (n : Int16) : Heap × Nat × Int16 :=
  let (b, cap) := whichBucketLoop n NBUCKETS 0 SMALLEST_BUCKET
  (if NBUCKETS ≤ b then heap.report (.tooBig n) else heap, b, cap)

/-! ### Malloc -/

variable (kernel : Kernel)

/-- `Os9Mem`, which leaves its arguments alone when there is an error, and `MallocOOM` then. -/
def askMem (heap : Heap) (new_memory_size end_of_new_mem n cap : Word) : Heap × Word × Word :=
  let heap' := { heap with asked := heap.asked + 1 }
  match kernel heap.asked new_memory_size with
  | .ok (size, new_end) => (heap', size, new_end)
  | .error e => (mallocOOM heap' e n cap, new_memory_size, end_of_new_mem)

/-- The first call finds out where the memory ends, and rounds it up. -/
def firstMalloc (heap : Heap) (n : Word) : Heap :=
  let (heap, _, end_of_new_mem) := askMem kernel heap 0 0 n 0
  let heap := { heap with heap_min := end_of_new_mem, heap_here := end_of_new_mem }
  let new_memory_size := (end_of_new_mem + 0x2000) &&& 0xE000
  let (heap, _, end_of_new_mem) := askMem kernel heap new_memory_size end_of_new_mem n 0
  { heap with heap_max := end_of_new_mem }

/-- Take the first block of a free list. -/
def reuse (heap : Heap) (b : Fin NBUCKETS) (cap : Word) : Heap × Word :=
  let h := heap.buck_freelist b
  let heap := { heap with ram := putWord heap.ram (h + 3) cap }
  let heap := heap_check_block heap h cap
  ({ heap with
      buck_freelist := Function.update heap.buck_freelist b (getWord heap.ram (h + 1))
      ram := clear heap.ram (h + headSize) cap }, h + headSize)

/-- Break fresh memory. -/
def carve (heap : Heap) (cap new_brk : Word) : Heap × Word :=
  let h := heap.heap_here
  let ram := putByte (putByte heap.ram h 65) (h + 5) 90
  let ram := putWord (putWord ram (h + 3) cap) (h + 1) 0
  ({ heap with heap_here := new_brk, ram := clear ram (h + headSize) cap }, h + headSize)

/-- Add another page. -/
def extend (heap : Heap) (n cap : Word) : Heap :=
  let heap := if heap.heap_retry then mallocOOM heap 255 n cap else heap
  let (heap, new_memory_size, _) := askMem kernel heap (heap.heap_max + 0x2000) 0 n cap
  { heap with heap_max := new_memory_size, heap_retry := true }

inductive Outcome
  | block (p : Word)
  /-- The assertion of the heap's bounds ends the program. -/
  | stopped
  /-- An index that is out of the tables of the buckets. -/
  | outOfTable (b : Nat)
  /-- The fuel ran out. -/
  | unfinished
  deriving DecidableEq

/-- The heap after its bounds are known. -/
def started (heap : Heap) (n : Word) : Heap :=
  if heap.heap_max = 0 then firstMalloc kernel heap n else heap

/-- What is returned of the call that `Malloc` makes of itself. -/
def retried : Heap × Outcome → Heap × Outcome
  | (heap, .block p) => ({ heap with heap_retry := false }, .block p)
  | (heap, other) => (heap, other)

def Malloc : Nat → Heap → Word → Heap × Outcome
  | 0, heap, _ => (heap, .unfinished)
  | fuel + 1, before, n =>
    let heap := started kernel before n
    if before.heap_max = 0 ∧ heap.heap_max < heap.heap_min then (heap, .stopped)
    else
      let (heap, b, cap) := which_bucket heap n.toInt16
      let cap := cap.toUInt16
      if inTable : b < NBUCKETS then
        if heap.buck_freelist ⟨b, inTable⟩ ≠ 0 then
          let (heap, p) := reuse heap ⟨b, inTable⟩ cap
          (heap, .block p)
        else
          let new_brk := heap.heap_here + (cap + headSize)
          if heap.heap_max < new_brk then retried (Malloc fuel (extend kernel heap n cap) n)
          else
            let (heap, p) := carve heap cap new_brk
            (heap, .block p)
      else (heap, .outOfTable b)

/-! ### Free and ReAlloc -/

/-- `none` is an index that is out of the tables of the buckets. -/
def Free (heap : Heap) (p : Word) : Option Heap :=
  if p = 0 then some heap
  else
    let h := p - headSize
    let held := getWord heap.ram (h + 3)
    if held = 0 then some (heap.report .doubleFree)
    else
      let (heap, b, cap) := which_bucket heap held.toInt16
      let cap := cap.toUInt16
      if inTable : b < NBUCKETS then
        let heap := heap_check_block heap h cap
        let ram := putWord (clear heap.ram p cap) (h + 3) 0
        some { heap with
          ram := putWord ram (h + 1) (heap.buck_freelist ⟨b, inTable⟩)
          buck_freelist := Function.update heap.buck_freelist ⟨b, inTable⟩ h }
      else none

/-- `memcpy` of as many bytes, from the first one on. -/
def copy (ram : Ram) (dest source : Word) : Nat → Ram
  | 0 => ram
  | count + 1 =>
    let ram := copy ram dest source count
    putByte ram (dest + UInt16.ofNat count) (ram (source + UInt16.ofNat count))

/-- The capacity of a block is kept as an `int`, which is compared with a word as a word. -/
def ReAlloc (fuel : Nat) (heap : Heap) (p n : Word) : Heap × Outcome :=
  if p = 0 then Malloc kernel fuel heap n
  else
    let held := getWord heap.ram (p - headSize + 3)
    if n ≤ held then (heap, .block p)
    else
      match Malloc kernel fuel heap n with
      | (heap, .block z) =>
        let held := getWord heap.ram (p - headSize + 3)
        match Free { heap with ram := copy heap.ram z p held.toNat } p with
        | some heap => (heap, .block z)
        | none => (heap, .outOfTable NBUCKETS)
      | (heap, other) => (heap, other)

end Frobio.Froblib
