/-
This file shows when `orealloc` of `octet/octet2.c` keeps to the object it is given: it
copies as many bytes as are requested, whatever the old object has.
-/

import Mathlib.Data.List.Range
import Frobio.Octet.Heap

namespace Frobio.Octet

open Memory

section

variable (beyond : (Nat → UInt8) → Nat → Nat)

/-! ### Objects -/

/-- The headers of the arena, as one goes from chunk to chunk. -/
inductive ChunkAt (h : Heap) : Nat → Prop
  | first (some : h.oRamBegin < h.oRamUsed) : ChunkAt h h.oRamBegin
  | after {p : Nat} (before : ChunkAt h p)
      (more : p + HDR_SIZE + h.cap beyond (h.buck p) < h.oRamUsed) :
      ChunkAt h (p + HDR_SIZE + h.cap beyond (h.buck p))

/-- An object is live if its chunk has a class. -/
def Live (h : Heap) (obj : Nat) : Prop :=
  ∃ hdr, ChunkAt beyond h hdr ∧ obj = hdr + HDR_SIZE ∧ h.cls hdr ≠ 0

def capacity (h : Heap) (obj : Nat) : Nat := h.cap beyond (h.buck (obj - HDR_SIZE))

/-- The object has its header and its bytes. -/
structure Untouched (h h' : Heap) (obj : Nat) : Prop where
  buck : h'.buck (obj - HDR_SIZE) = h.buck (obj - HDR_SIZE)
  cls : h'.cls (obj - HDR_SIZE) = h.cls (obj - HDR_SIZE)
  payload : ∀ i < capacity beyond h obj, h'.memory (obj + i) = h.memory (obj + i)

/-- `orealloc` returns an object that begins like the old one, reads only the old one, writes only
the new one, and leaves the other objects alone. -/
def Preserves (h : Heap) (obj len : Nat) (toFree : Bool) : Prop :=
  ∃ rounds result, orealloc beyond rounds h obj len toFree = .ok result ∧
    (∀ i < min (capacity beyond h obj) len,
      result.heap.memory (result.address + i) = h.memory (obj + i)) ∧
    (∀ a ∈ result.read, obj ≤ a ∧ a < obj + capacity beyond h obj) ∧
    (∀ a ∈ result.written,
      result.address ≤ a ∧ a < result.address + capacity beyond result.heap result.address) ∧
    ∀ other, Live beyond h other → other ≠ obj → Untouched beyond h result.heap other

end

/-! ### What a copy reads -/

theorem read_copyWords (nw : Nat) (copied : Copied) (dest src : Nat) :
    (copyWords nw copied dest src).read = copied.read ++ List.range' src (nw * 2) := by
  induction nw generalizing copied dest src with
  | zero => exact (List.append_nil _).symm
  | succ nw inductionHypothesis =>
    have split : List.range' src ((nw + 1) * 2) =
        [src, src + 1] ++ List.range' (src + 2) (nw * 2) := by
      rw [Nat.succ_mul, Nat.add_comm (nw * 2) 2, ← List.range'_append_1]
      rfl
    rw [copyWords, inductionHypothesis, split, List.append_assoc]

/-- A copy reads all the bytes that are asked for. -/
theorem read_omemcpy (memory : Nat → UInt8) (dest src len : Nat) :
    (omemcpy memory dest src len).read = List.range' src len := by
  have words := read_copyWords (len / 2) ⟨memory, [], []⟩ dest src
  rw [List.nil_append] at words
  rw [omemcpy]
  dsimp only
  split
  · rename_i odd
    have length : len = len / 2 * 2 + 1 := by omega
    show (copyWords (len / 2) ⟨memory, [], []⟩ dest src).read ++ [src + len / 2 * 2] = _
    rw [words]
    conv_rhs => rw [length]
    rw [List.range'_concat, Nat.one_mul]
  · have length : len = len / 2 * 2 := by omega
    rw [words, ← length]

section

variable {beyond : (Nat → UInt8) → Nat → Nat} {h : Heap} {obj len : Nat} {toFree : Bool}

/-- To grow, `orealloc` reads behind the end of the old object, if it returns at all. -/
theorem not_preserves_of_lt (grows : capacity beyond h obj < len) :
    ¬Preserves beyond h obj len toFree := by
  rintro ⟨rounds, result, returned, -, reads, -⟩
  have more : h.cap beyond (h.buck (obj - HDR_SIZE)) < len := grows
  rw [orealloc] at returned
  dsimp only at returned
  rw [if_pos more] at returned
  cases allocated : oalloc beyond rounds h len (h.cls (obj - HDR_SIZE)) with
  | error stop =>
    rw [allocated] at returned
    cases returned
  | ok new =>
    rw [allocated] at returned
    cases returned
    have behind : obj + capacity beyond h obj ∈
        (omemcpy new.2.memory new.1 obj len).read := by
      rw [read_omemcpy, List.mem_range'_1]
      omega
    exact absurd (reads _ behind).2 (Nat.lt_irrefl _)

/-- Whatever the heap and the object: `orealloc` keeps to the object if and only if no more is
requested than it has. -/
theorem orealloc_preserves_iff (beyond : (Nat → UInt8) → Nat → Nat) (h : Heap) (obj len : Nat)
    (toFree : Bool) : Preserves beyond h obj len toFree ↔ len ≤ capacity beyond h obj := by
  refine ⟨fun preserves => ?_, fun fits => ?_⟩
  · by_contra grows
    exact not_preserves_of_lt (Nat.not_le.mp grows) preserves
  · have same : orealloc beyond 0 h obj len toFree = .ok ⟨obj, h, [], []⟩ :=
      if_neg (Nat.not_lt.mpr fits)
    refine ⟨0, _, same, fun _ _ => rfl, fun _ member => ?_, fun _ member => ?_, fun _ _ _ => ?_⟩
    · exact absurd member List.not_mem_nil
    · exact absurd member List.not_mem_nil
    · exact ⟨rfl, rfl, fun _ _ => rfl⟩

end

/-- A heap with one object of four bytes. -/
def oneObject : Heap :=
  { oinit (fun a => if a = 0x1001 then 1 else 0) 0x1000 0x2000 none with oRamUsed := 0x1006 }

/-- The live object is asked to have five bytes, and a byte of what is behind it is read. -/
theorem not_preserves_oneObject :
    Live (fun _ _ => 0) oneObject 0x1002 ∧ ¬Preserves (fun _ _ => 0) oneObject 0x1002 5 false := by
  refine ⟨⟨0x1000, .first (by decide), rfl, by decide⟩, not_preserves_of_lt ?_⟩
  decide

end Frobio.Octet
