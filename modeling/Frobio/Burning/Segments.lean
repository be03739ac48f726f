/-
This file models the sender of `burning/broadcast-burn.go`: it cuts each data group of its
input into segments that lie within one page of 64 bytes, and broadcasts one packet of 128
bytes for each segment, over and over.

The three global variables in which a segment is collected are empty, zero and zero before
the first byte of a group. A group in the first page of the memory looks to
`TransmitGroup` as if its segment were begun at address zero already.
-/

import Mathlib.Data.List.Basic
import Mathlib.Tactic
import Frobio.Coms.Quint

namespace Frobio.Burning

open Coms

/-! ### Cutting -/

structure Segment where
  addr : Nat
  data : List UInt8
  deriving DecidableEq

/-- The global variables `Segments`, `Data`, `Base` and `Offset`. -/
structure Globals where
  segments : List Segment
  data : List UInt8
  base : Nat
  offset : Nat

def keep (g : Globals) : Globals :=
  if g.data.length = 0 then g
  else ⟨g.segments ++ [⟨g.base + g.offset, g.data⟩], [], 0, 0⟩

/-- One round of the loop of `TransmitGroup`. -/
def addByte (g : Globals) (addr : Nat) (byte : UInt8) : Globals :=
  let base := addr / 64 * 64
  if base = g.base then { g with data := g.data ++ [byte] }
  else { keep g with data := [byte], base := base, offset := addr % 64 }

def addBytes (g : Globals) : Nat → List UInt8 → Globals
  | _, [] => g
  | addr, byte :: rest => addBytes (addByte g addr byte) (addr + 1) rest

def transmitGroup (g : Globals) (bb : List UInt8) (p : Nat) : Globals :=
  keep (addBytes { g with data := [], base := 0, offset := 0 } p bb)

/-! ### The input -/

/-- A data group of the input. -/
structure Group where
  addr : Nat
  data : List UInt8
  small : data.length < 65536
  inside : addr + data.length ≤ 65536
  start : addr < 65536

def Group.bytes (g : Group) : List UInt8 :=
  [0, hi g.data.length, lo g.data.length, hi g.addr, lo g.addr] ++ g.data

/-- The input that ends with a record of type 255. -/
def input (groups : List Group) : List UInt8 := groups.flatMap Group.bytes ++ [255, 0, 0, 0, 0]

/-- The loop of `TransmitAll`; `none` is a panic or `log.Fatal`. Every round takes five bytes or
more. -/
def transmitLoop : Nat → Globals → List UInt8 → Option Globals
  | 0, g, _ => some g
  | fuel + 1, g, bb =>
    match bb with
    | [] => some g
    | cmd :: n1 :: n2 :: p1 :: p2 :: rest =>
      let n := hiLo n1 n2
      let p := hiLo p1 p2
      if cmd = 0 then
        if n ≤ rest.length then transmitLoop fuel (transmitGroup g (rest.take n) p) (rest.drop n)
        else none
      else if cmd = 255 then
        if rest ≠ [] ∨ n ≠ 0 then none else some g
      else none
    | _ => none

def transmitAll (bb : List UInt8) : Option (List Segment) :=
  (transmitLoop (bb.length + 1) ⟨[], [], 0, 0⟩ bb).map Globals.segments

/-! ### Packets -/

/-- The builtin function `copy`, to the bytes from a position on. -/
def copyTo (dst : List UInt8) (position : Nat) (src : List UInt8) : List UInt8 :=
  let count := min src.length (dst.length - position)
  dst.take position ++ src.take count ++ dst.drop (position + count)

/-- The packet of a segment. The text is the description, with the numbers. -/
def packet (text : List UInt8) (ith count : Nat) (seg : Segment) : List UInt8 :=
  let blank := copyTo (List.replicate 128 0) 0 text
  let fields := [lo ith, lo count, lo seg.data.length, hi seg.addr, lo seg.addr]
  copyTo (copyTo blank 59 fields) 64 seg.data

/-- What `TransmitSegments` sends. -/
def packets (text : Nat → List UInt8) (segs : List Segment) : List (List UInt8) :=
  segs.mapIdx fun ith seg => packet (text ith) ith segs.length seg

/-! ### The law of the segments -/

/-- A segment lies within one page. -/
def Segment.OnePage (seg : Segment) : Prop := seg.addr % 64 + seg.data.length ≤ 64

/-- The segments are the bytes from the address on. -/
def Cut : Nat → List Segment → List UInt8 → Prop
  | _, [], bytes => bytes = []
  | addr, seg :: rest, bytes =>
    seg.addr = addr ∧ seg.data ≠ [] ∧ seg.OnePage ∧ seg.data <+: bytes ∧
      Cut (addr + seg.data.length) rest (bytes.drop seg.data.length)

/-- The segments of a group. -/
def segmentsOf (group : Group) : List Segment :=
  (transmitGroup ⟨[], [], 0, 0⟩ group.data group.addr).segments

/-! ### One group -/

theorem keep_of_empty {g : Globals} (empty : g.data = []) : keep g = g := by
  rw [keep, empty]
  rfl

theorem keep_of_ne_nil {g : Globals} (nonempty : g.data ≠ []) :
    keep g = ⟨g.segments ++ [⟨g.base + g.offset, g.data⟩], [], 0, 0⟩ :=
  if_neg fun zero => nonempty (List.length_eq_zero_iff.mp zero)

theorem addByte_same {g : Globals} {addr : Nat} (same : addr / 64 * 64 = g.base) (byte : UInt8) :
    addByte g addr byte = ⟨g.segments, g.data ++ [byte], g.base, g.offset⟩ := if_pos same

theorem addByte_other {g : Globals} {addr : Nat} (other : addr / 64 * 64 ≠ g.base) (byte : UInt8) :
    addByte g addr byte = ⟨(keep g).segments, [byte], addr / 64 * 64, addr % 64⟩ := if_neg other

/-- A segment is begun, and its bytes are those before the address. -/
structure Building (g : Globals) (addr : Nat) : Prop where
  nonempty : g.data ≠ []
  page : 64 ∣ g.base
  room : g.offset + g.data.length ≤ 64
  reached : g.base + g.offset + g.data.length = addr

theorem Building.onePage {g : Globals} {addr : Nat} (building : Building g addr) :
    Segment.OnePage ⟨g.base + g.offset, g.data⟩ := by
  obtain ⟨page, base⟩ := building.page
  have room := building.room
  have some := List.length_pos_iff.mpr building.nonempty
  show (g.base + g.offset) % 64 + g.data.length ≤ 64
  omega

/-- One byte makes a segment of its own page. -/
theorem building_one {addr : Nat} (segments : List Segment) (byte : UInt8) :
    Building ⟨segments, [byte], addr / 64 * 64, addr % 64⟩ (addr + 1) := by
  refine ⟨List.cons_ne_nil _ _, ⟨addr / 64, Nat.mul_comm _ _⟩, ?_, ?_⟩
  · show addr % 64 + 1 ≤ 64
    omega
  · show addr / 64 * 64 + addr % 64 + 1 = addr + 1
    omega

theorem Building.grow {g : Globals} {addr : Nat} (building : Building g addr)
    (same : addr / 64 * 64 = g.base) (byte : UInt8) :
    Building ⟨g.segments, g.data ++ [byte], g.base, g.offset⟩ (addr + 1) := by
  obtain ⟨nonempty, page, room, reached⟩ := building
  have length : (g.data ++ [byte]).length = g.data.length + 1 := List.length_append
  refine ⟨List.append_ne_nil_of_left_ne_nil nonempty _, page, ?_, ?_⟩
  · show g.offset + (g.data ++ [byte]).length ≤ 64
    omega
  · show g.base + g.offset + (g.data ++ [byte]).length = addr + 1
    omega

/-- From a segment that is begun, the bytes are cut at the pages. -/
theorem Building.cut {g : Globals} {addr : Nat} (building : Building g addr) (bytes : List UInt8) :
    ∃ segs, (keep (addBytes g addr bytes)).segments = g.segments ++ segs ∧
      Cut (g.base + g.offset) segs (g.data ++ bytes) := by
  induction bytes generalizing g addr with
  | nil =>
    rw [addBytes, keep_of_ne_nil building.nonempty, List.append_nil]
    exact ⟨_, rfl, rfl, building.nonempty, building.onePage, List.prefix_refl _,
      List.drop_length⟩
  | cons byte rest inductionHypothesis =>
    rw [addBytes]
    by_cases same : addr / 64 * 64 = g.base
    · obtain ⟨segs, result, cut⟩ := inductionHypothesis (building.grow same byte)
      rw [addByte_same same]
      refine ⟨segs, result, ?_⟩
      rw [← List.append_cons] at cut
      exact cut
    · obtain ⟨segs, result, cut⟩ := inductionHypothesis
        (building_one (keep g).segments byte : Building _ (addr + 1))
      rw [addByte_other same, result, keep_of_ne_nil building.nonempty, List.append_assoc]
      refine ⟨_, rfl, rfl, building.nonempty, building.onePage, List.prefix_append _ _, ?_⟩
      rw [List.drop_left]
      show Cut (g.base + g.offset + g.data.length) segs (byte :: rest)
      rw [building.reached]
      have whole : addr / 64 * 64 + addr % 64 = addr := by omega
      exact whole ▸ cut

/-- Whatever is begun, its address is that of the first segment. -/
theorem first_segment {g : Globals} (nonempty : g.data ≠ []) (addr : Nat) (bytes : List UInt8) :
    ∃ data segs, (keep (addBytes g addr bytes)).segments =
      g.segments ++ ⟨g.base + g.offset, data⟩ :: segs := by
  induction bytes generalizing g addr with
  | nil =>
    rw [addBytes, keep_of_ne_nil nonempty]
    exact ⟨_, _, rfl⟩
  | cons byte rest inductionHypothesis =>
    rw [addBytes]
    by_cases same : addr / 64 * 64 = g.base
    · rw [addByte_same same]
      have more : g.data ++ [byte] ≠ [] := List.append_ne_nil_of_left_ne_nil nonempty _
      exact @inductionHypothesis ⟨g.segments, g.data ++ [byte], g.base, g.offset⟩ more (addr + 1)
    · obtain ⟨data, segs, result⟩ := @inductionHypothesis
        ⟨(keep g).segments, [byte], addr / 64 * 64, addr % 64⟩ (List.cons_ne_nil _ _) (addr + 1)
      rw [addByte_other same, result, keep_of_ne_nil nonempty, List.append_assoc]
      exact ⟨_, _, rfl⟩

/-- The segments are the group, at their true addresses and each in one page, unless the group
begins within the first page. -/
theorem cut_segmentsOf_iff (group : Group) :
    Cut group.addr (segmentsOf group) group.data ↔
      group.data = [] ∨ group.addr = 0 ∨ 64 ≤ group.addr := by
  rw [segmentsOf, transmitGroup]
  cases group.data with
  | nil => exact iff_of_true rfl (.inl rfl)
  | cons byte rest =>
    rw [addBytes]
    by_cases low : group.addr / 64 * 64 = 0
    · rw [addByte_same (low : _ = (Globals.mk [] [] 0 0).base)]
      obtain ⟨data, segs, first⟩ := @first_segment ⟨[], [byte], 0, 0⟩ (List.cons_ne_nil _ _)
        (group.addr + 1) rest
      by_cases atZero : group.addr = 0
      · refine iff_of_true ?_ (.inr (.inl atZero))
        have building : Building ⟨[], [byte], 0, 0⟩ (0 + 1) := @building_one 0 [] byte
        obtain ⟨segs, result, cut⟩ := building.cut rest
        rw [atZero]
        exact (congrArg (Cut 0 · (byte :: rest)) result).mpr cut
      · refine iff_of_false (fun cut => ?_) fun condition => ?_
        · have cut := (congrArg (Cut group.addr · (byte :: rest)) first).mp cut
          exact atZero cut.1.symm
        · rcases condition with wrong | wrong | wrong
          · cases wrong
          · exact atZero wrong
          · omega
    · rw [addByte_other (low : _ ≠ (Globals.mk [] [] 0 0).base)]
      refine iff_of_true ?_ (.inr (.inr (by omega)))
      obtain ⟨segs, result, cut⟩ :=
        (building_one [] byte : Building _ (group.addr + 1)).cut rest
      have whole : group.addr / 64 * 64 + group.addr % 64 = group.addr := by omega
      exact (congrArg (Cut group.addr · (byte :: rest)) result).mpr (whole ▸ cut)

/-! ### All groups -/

/-- The same variables, with more segments before. -/
def Globals.behind (pre : List Segment) (g : Globals) : Globals :=
  ⟨pre ++ g.segments, g.data, g.base, g.offset⟩

theorem keep_behind (pre : List Segment) (g : Globals) :
    keep (g.behind pre) = (keep g).behind pre := by
  by_cases empty : g.data = []
  · rw [keep_of_empty empty, keep_of_empty (g := g.behind pre) empty]
  · rw [keep_of_ne_nil empty, keep_of_ne_nil (g := g.behind pre) empty, Globals.behind,
      Globals.behind, List.append_assoc]

theorem addBytes_behind (pre : List Segment) (g : Globals) (addr : Nat) (bytes : List UInt8) :
    addBytes (g.behind pre) addr bytes = (addBytes g addr bytes).behind pre := by
  induction bytes generalizing g addr with
  | nil => rfl
  | cons byte rest inductionHypothesis =>
    have one : addByte (g.behind pre) addr byte = (addByte g addr byte).behind pre := by
      by_cases same : addr / 64 * 64 = g.base
      · rw [addByte_same same, addByte_same (g := g.behind pre) same]
        rfl
      · rw [addByte_other same, addByte_other (g := g.behind pre) same, keep_behind]
        rfl
    rw [addBytes, addBytes, one, inductionHypothesis]

theorem segments_transmitGroup (g : Globals) (group : Group) :
    (transmitGroup g group.data group.addr).segments = g.segments ++ segmentsOf group := by
  have start : ({ g with data := [], base := 0, offset := 0 } : Globals) =
      Globals.behind g.segments ⟨[], [], 0, 0⟩ := by
    rw [Globals.behind, List.append_nil]
  rw [transmitGroup, start, addBytes_behind, keep_behind]
  rfl

theorem transmitLoop_input (groups : List Group) (g : Globals) {fuel : Nat}
    (enough : (input groups).length < fuel) :
    (transmitLoop fuel g (input groups)).map Globals.segments =
      some (g.segments ++ groups.flatMap segmentsOf) := by
  induction groups generalizing g fuel with
  | nil =>
    obtain ⟨fuel, rfl⟩ := Nat.exists_eq_succ_of_ne_zero (Nat.ne_zero_of_lt enough)
    rw [List.flatMap_nil, List.append_nil]
    rfl
  | cons group groups inductionHypothesis =>
    obtain ⟨fuel, rfl⟩ := Nat.exists_eq_succ_of_ne_zero (Nat.ne_zero_of_lt enough)
    have bytes : input (group :: groups) = 0 :: hi group.data.length :: lo group.data.length ::
        hi group.addr :: lo group.addr :: (group.data ++ input groups) := by
      rw [input, List.flatMap_cons, List.append_assoc, Group.bytes, List.append_assoc]
      rfl
    rw [bytes] at enough ⊢
    simp only [List.length_cons, List.length_append] at enough
    have n : hiLo (hi group.data.length) (lo group.data.length) = group.data.length := by
      rw [hiLo_hi_lo, Nat.mod_eq_of_lt group.small]
    have p : hiLo (hi group.addr) (lo group.addr) = group.addr := by
      rw [hiLo_hi_lo, Nat.mod_eq_of_lt group.start]
    have whole : group.data.length ≤ (group.data ++ input groups).length := by
      rw [List.length_append]
      omega
    rw [transmitLoop, if_pos rfl, n, p, if_pos whole, List.take_left, List.drop_left,
      inductionHypothesis _ (by omega), segments_transmitGroup, List.flatMap_cons,
      List.append_assoc]

/-- The segments of the input are those of its groups. -/
theorem transmitAll_input (groups : List Group) :
    transmitAll (input groups) = some (groups.flatMap segmentsOf) :=
  transmitLoop_input groups ⟨[], [], 0, 0⟩ (Nat.lt_succ_self _)

/-- A byte at an address is in a segment just when it is in what was cut. -/
theorem Cut.holds_iff {segs : List Segment} {addr : Nat} {bytes : List UInt8}
    (cut : Cut addr segs bytes) (a : Nat) (byte : UInt8) :
    (∃ seg ∈ segs, ∃ i, seg.data[i]? = some byte ∧ seg.addr + i = a) ↔
      ∃ i, bytes[i]? = some byte ∧ addr + i = a := by
  induction segs generalizing addr bytes with
  | nil =>
    obtain rfl : bytes = [] := cut
    refine iff_of_false (fun ⟨_, member, _⟩ => List.not_mem_nil member) ?_
    rintro ⟨i, found, -⟩
    cases found
  | cons seg rest inductionHypothesis =>
    obtain ⟨rfl, -, -, ⟨tail, rfl⟩, onward⟩ := cut
    rw [List.drop_left] at onward
    have later := inductionHypothesis onward
    constructor
    · rintro ⟨other, member, i, found, here⟩
      rcases List.mem_cons.mp member with rfl | member
      · have inside := (List.getElem?_eq_some_iff.mp found).1
        exact ⟨i, by rw [List.getElem?_append_left inside, found], here⟩
      · obtain ⟨j, found', here'⟩ := later.mp ⟨other, member, i, found, here⟩
        refine ⟨seg.data.length + j, ?_, by omega⟩
        rw [List.getElem?_append_right (Nat.le_add_right _ _), Nat.add_sub_cancel_left, found']
    · rintro ⟨i, found, here⟩
      by_cases inside : i < seg.data.length
      · rw [List.getElem?_append_left inside] at found
        exact ⟨seg, List.mem_cons_self, i, found, here⟩
      · rw [List.getElem?_append_right (Nat.not_lt.mp inside)] at found
        obtain ⟨other, member, result⟩ := later.mpr ⟨i - seg.data.length, found, by omega⟩
        exact ⟨other, List.mem_cons_of_mem _ member, result⟩

/-- The segments that are cut are short and not empty, and do not reach past the bytes. -/
theorem Cut.bounds {segs : List Segment} {addr : Nat} {bytes : List UInt8}
    (cut : Cut addr segs bytes) :
    ∀ seg ∈ segs, seg.data ≠ [] ∧ seg.data.length ≤ 64 ∧
      seg.addr + seg.data.length ≤ addr + bytes.length := by
  induction segs generalizing addr bytes with
  | nil => exact fun _ member => (List.not_mem_nil member).elim
  | cons first rest inductionHypothesis =>
    obtain ⟨rfl, nonempty, onePage, ⟨tail, rfl⟩, onward⟩ := cut
    rw [List.drop_left] at onward
    intro seg member
    rw [List.length_append]
    rcases List.mem_cons.mp member with rfl | member
    · have page : seg.addr % 64 + seg.data.length ≤ 64 := onePage
      exact ⟨nonempty, by omega, by omega⟩
    · obtain ⟨some, short, inside⟩ := inductionHypothesis onward seg member
      exact ⟨some, short, by omega⟩

/-! ### What is in a packet -/

theorem copyTo_of_fits {dst src : List UInt8} {position : Nat}
    (fits : position + src.length ≤ dst.length) :
    copyTo dst position src = dst.take position ++ src ++ dst.drop (position + src.length) := by
  have count : min src.length (dst.length - position) = src.length := by omega
  rw [copyTo, count, List.take_length]

@[simp] theorem length_copyTo (dst : List UInt8) {position : Nat} (src : List UInt8)
    (inside : position ≤ dst.length) : (copyTo dst position src).length = dst.length := by
  simp only [copyTo, List.length_append, List.length_take, List.length_drop]
  omega

/-- The fields and the data of a segment, behind 59 bytes of text. -/
theorem packet_eq (text : List UInt8) (ith count : Nat) {seg : Segment}
    (short : seg.data.length ≤ 64) :
    ∃ front back, front.length = 59 ∧ (packet text ith count seg).length = 128 ∧
      packet text ith count seg = front ++ ([lo ith, lo count, lo seg.data.length, hi seg.addr,
        lo seg.addr] ++ (seg.data ++ back)) := by
  obtain ⟨blank, blank_eq⟩ : ∃ blank, blank = copyTo (List.replicate 128 0) 0 text := ⟨_, rfl⟩
  obtain ⟨fields, fields_eq⟩ : ∃ fields, fields = [lo ith, lo count, lo seg.data.length,
    hi seg.addr, lo seg.addr] := ⟨_, rfl⟩
  have five : fields.length = 5 := by rw [fields_eq]; rfl
  have blankLength : blank.length = 128 := by
    rw [blank_eq, length_copyTo _ _ (Nat.zero_le _), List.length_replicate]
  have withFields : copyTo blank 59 fields = blank.take 59 ++ fields ++ blank.drop 64 := by
    rw [copyTo_of_fits (by omega), five]
  have frontLength : (blank.take 59).length = 59 := by
    rw [List.length_take]
    omega
  have head : (blank.take 59 ++ fields).length = 64 := by
    rw [List.length_append]
    omega
  have length : (copyTo blank 59 fields).length = 128 := by
    rw [length_copyTo _ _ (by omega), blankLength]
  have packet_eq : packet text ith count seg = copyTo (copyTo blank 59 fields) 64 seg.data := by
    rw [packet, blank_eq, fields_eq]
  refine ⟨blank.take 59, (copyTo blank 59 fields).drop (64 + seg.data.length), frontLength, ?_, ?_⟩
  · rw [packet_eq, length_copyTo _ _ (by omega), length]
  · have taken : (copyTo blank 59 fields).take 64 = blank.take 59 ++ fields := by
      rw [withFields]
      exact List.take_left' head
    rw [packet_eq, copyTo_of_fits (by omega), taken, ← fields_eq, List.append_assoc,
      List.append_assoc]

end Frobio.Burning
