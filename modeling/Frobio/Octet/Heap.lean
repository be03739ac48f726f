/-
This file models the allocator of `octet/octet2.c`.

An object has a header of two bytes, its bucket and its class, and then as many bytes
as the table says for its bucket. Words are big-endian and have 16 bits. `opanic` does
not return, and neither does a function that needs more rounds than it is given.
-/

import Frobio.Lib.Memory

namespace Frobio.Octet

open Memory

def HDR_SIZE : Nat := 2

def NUM_BUCKETS : Nat := 16

def BUCK_MARK_BIT : UInt8 := 0x80

def BUCK_MASK : UInt8 := 0x7F

def O_LAST_NONPTR_CLASS : UInt8 := 15

def OBucketCap : List Nat :=
  [4, 8, 12, 16, 24, 32, 48, 64, 96, 128, 192, 0x100, 0x180, 0x200, 0x300, 0x400]

inductive Panic
  | zeroClass
  | tooBig
  | oom
  | odd
  | badPtr
  deriving DecidableEq

/-- Why a function does not return. -/
inductive Stop
  | panic (why : Panic)
  | rounds
  deriving DecidableEq

abbrev Octet := Except Stop

/-- The roots are what `OMarkRoots` calls `omark` with, if it is set. -/
structure Heap where
  memory : Nat → UInt8
  oRamBegin : Nat
  oRamUsed : Nat
  oRamEnd : Nat
  oMarkRoots : Option (List Nat)
  oBucket : Nat → Nat

def ogetw (memory : Nat → UInt8) (a : Nat) : Nat :=
  (memory a).toNat * 256 + (memory (a + 1)).toNat

def oputw (memory : Nat → UInt8) (a w : Nat) : Nat → UInt8 :=
  store memory a [UInt8.ofNat (w / 256), UInt8.ofNat w]

def oputb (memory : Nat → UInt8) (a : Nat) (b : UInt8) : Nat → UInt8 := store memory a [b]

def ozero (memory : Nat → UInt8) (p len : Nat) : Nat → UInt8 :=
  store memory p (List.replicate len 0)

def osize2bucket (size : Nat) : Octet Nat :=
  match OBucketCap.findIdx? (size ≤ ·) with
  | some buck => pure buck
  | none => .error (.panic .tooBig)

/-- What a copy leaves, and the addresses it has read and written. -/
structure Copied where
  memory : Nat → UInt8
  read : List Nat
  written : List Nat

/-- The loop of `omemcpy`. -/
def copyWords : Nat → Copied → Nat → Nat → Copied
  | 0, copied, _, _ => copied
  | nw + 1, ⟨memory, read, written⟩, dest, src =>
    copyWords nw
      ⟨oputw memory dest (ogetw memory src), read ++ [src, src + 1], written ++ [dest, dest + 1]⟩
      (dest + 2) (src + 2)

def omemcpy (memory : Nat → UInt8) (dest src len : Nat) : Copied :=
  let copied := copyWords (len / 2) ⟨memory, [], []⟩ dest src
  if len % 2 = 1 then
    let dest := dest + len / 2 * 2
    let src := src + len / 2 * 2
    ⟨oputb copied.memory dest (copied.memory src), copied.read ++ [src], copied.written ++ [dest]⟩
  else copied

namespace Heap

def buck (h : Heap) (hdr : Nat) : UInt8 := h.memory hdr

def cls (h : Heap) (hdr : Nat) : UInt8 := h.memory (hdr + 1)

def setBuck (h : Heap) (hdr : Nat) (buck : UInt8) : Heap :=
  { h with memory := oputb h.memory hdr buck }

def setCls (h : Heap) (hdr : Nat) (cls : UInt8) : Heap :=
  { h with memory := oputb h.memory (hdr + 1) cls }

/-- The field `next` is in the body of the object. -/
def setNext (h : Heap) (hdr next : Nat) : Heap :=
  { h with memory := oputw h.memory (hdr + HDR_SIZE) next }

def zero (h : Heap) (p len : Nat) : Heap := { h with memory := ozero h.memory p len }

def setBucket (h : Heap) (buck hdr : Nat) : Heap :=
  { h with oBucket := Function.update h.oBucket buck hdr }

/-- Put a chunk on the list of its bucket. -/
def push (h : Heap) (buck hdr : Nat) : Heap :=
  (h.setNext hdr (h.oBucket buck)).setBucket buck hdr

end Heap

/-- `oinit`. -/
def oinit (memory : Nat → UInt8) (begin_ end_ : Nat) (roots : Option (List Nat)) : Heap where
  memory := memory
  oRamBegin := begin_
  oRamUsed := begin_
  oRamEnd := end_
  oMarkRoots := roots
  oBucket := fun _ => 0

section

-- what is behind the table of capacities, as words of the memory
variable (beyond : (Nat → UInt8) → Nat → Nat)

/-- `OBucketCap[buck]`, for any byte. -/
def Heap.cap (h : Heap) (buck : UInt8) : Nat :=
  OBucketCap.getD buck.toNat (beyond h.memory buck.toNat)

def oallocTry (h : Heap) (len : Nat) (cls : UInt8) : Octet (Nat × Heap) :=
  if cls = 0 then .error (.panic .zeroClass)
  else do
    let buck ← osize2bucket len
    let hdr := h.oBucket buck
    let cap := OBucketCap.getD buck 0
    if hdr ≠ 0 then
      let h := h.setBucket buck (ogetw h.memory (hdr + HDR_SIZE))
      -- the header is zeroed with the first bytes of the object
      let h := (h.zero hdr cap).setCls hdr cls
      pure (hdr + HDR_SIZE, h)
    else
      let sz := cap + HDR_SIZE
      if (h.oRamUsed + sz) % 65536 ≥ h.oRamEnd then pure (0, h)
      else
        let hdr := h.oRamUsed
        let h := { h with oRamUsed := (h.oRamUsed + sz) % 65536 }
        let h := (h.setBuck hdr (UInt8.ofNat buck)).setCls hdr cls
        pure (hdr + HDR_SIZE, h.zero (hdr + HDR_SIZE) cap)

def ofree (h : Heap) (addr : Nat) : Heap :=
  let hdr := addr - HDR_SIZE
  let buck := h.buck hdr
  let cap := h.cap beyond buck
  ((h.zero addr cap).setCls hdr 0).push buck.toNat hdr

mutual

def omark (rounds : Nat) (h : Heap) (addr : Nat) : Octet Heap :=
  match rounds with
  | 0 => .error .rounds
  | rounds + 1 =>
    if addr = 0 then pure h
    else if addr % 2 = 1 then .error (.panic .odd)
    else if addr < h.oRamBegin then .error (.panic .badPtr)
    else if addr ≥ h.oRamEnd then .error (.panic .badPtr)
    else
      let hdr := addr - HDR_SIZE
      let cls := h.cls hdr
      if cls = 0 then .error (.panic .zeroClass)
      else
        let h := h.setBuck hdr (BUCK_MARK_BIT ||| h.buck hdr)
        if cls > O_LAST_NONPTR_CLASS then
          -- the mark is still on the index
          markFields rounds h addr (h.cap beyond (h.buck hdr)) 0
        else pure h

/-- The loop of `omark` over the pointers of an object. -/
def markFields (rounds : Nat) (h : Heap) (addr cap i : Nat) : Octet Heap :=
  match rounds with
  | 0 => .error .rounds
  | rounds + 1 =>
    if i < cap then do
      let q := ogetw h.memory (addr + i)
      let h ←
        if q > h.oRamBegin ∧ q < h.oRamEnd ∧ q % 2 = 0 ∧
            h.buck (q - HDR_SIZE) &&& BUCK_MARK_BIT = 0 then
          omark rounds h q
        else pure h
      markFields rounds h addr cap ((i + 2) % 65536)
    else pure h

end

/-- `OMarkRoots`. -/
def markRoots (rounds : Nat) (h : Heap) : List Nat → Octet Heap
  | [] => pure h
  | root :: rest => do
    let h ← omark beyond rounds h root
    markRoots rounds h rest

/-- The body of the sweep, and where the next chunk is. -/
def sweepChunk (h : Heap) (p : Nat) : Heap × Nat :=
  let cls := h.cls p
  let buck := BUCK_MASK &&& h.buck p
  let cap := h.cap beyond buck
  -- the mark is off already
  let h :=
    if cls = 0 ∨ BUCK_MARK_BIT &&& buck = 0 then
      ((h.zero (p + HDR_SIZE) cap).setCls p 0).push buck.toNat p
    else h
  (h.setBuck p (h.buck p &&& BUCK_MASK), (p + HDR_SIZE + cap) % 65536)

def sweep : Nat → Heap → Nat → Octet Heap
  | 0, _, _ => .error .rounds
  | rounds + 1, h, p =>
    if p < h.oRamUsed then
      let (h, p) := sweepChunk beyond h p
      sweep rounds h p
    else pure h

def ogc (rounds : Nat) (h : Heap) : Octet Heap :=
  match h.oMarkRoots with
  | none => pure h
  | some roots => do
    let h ← markRoots beyond rounds h roots
    sweep beyond rounds { h with oBucket := fun _ => 0 } h.oRamBegin

def oalloc (rounds : Nat) (h : Heap) (len : Nat) (cls : UInt8) : Octet (Nat × Heap) := do
  let (p, h) ← oallocTry h len cls
  let (p, h) ←
    if p = 0 then do
      let h ← ogc beyond rounds h
      oallocTry h len cls
    else pure (p, h)
  if p = 0 then .error (.panic .oom) else pure (p, h)

/-- What `orealloc` returns, the heap it leaves, and the traffic of its copy. -/
structure Realloced where
  address : Nat
  heap : Heap
  read : List Nat
  written : List Nat

def orealloc (rounds : Nat) (h : Heap) (obj len : Nat) (toFree : Bool) : Octet Realloced :=
  let hdr := obj - HDR_SIZE
  let cap := h.cap beyond (h.buck hdr)
  if cap < len then do
    let (p, h) ← oalloc beyond rounds h len (h.cls hdr)
    let copied := omemcpy h.memory p obj len
    let h := { h with memory := copied.memory }
    pure ⟨p, if toFree then ofree beyond h obj else h, copied.read, copied.written⟩
  else pure ⟨obj, h, [], []⟩

end

end Frobio.Octet
