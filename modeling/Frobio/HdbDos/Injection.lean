/-
This file shows that the packets of `SendInitialInjections` put the whole inkey trap into
the memory of the machine. The chunks are sent from the end of the file to its front, so
that the one that is executed comes last.

A packet is read here as the code of `hdbdos/sideload.asm` reads it, from its fields at
$0638. That code is at the front of every packet and ends before the fields.
-/

import Frobio.HdbDos.Drives

namespace Frobio.HdbDos

open Coms Positional SlashPath

/-! ### The fields of a packet -/

/-- A byte of the sector that is loaded at $0600. -/
def field (m : Message) (i : Nat) : UInt8 := m.payload.getD (5 + i) 0

/-- `SL_COPY_DEST`, `SL_JSR_DEST` and `SL_COPY_LEN`. -/
def copyDest (m : Message) : Nat := hiLo (field m 0x38) (field m 0x39)

def jsrDest (m : Message) : Nat := hiLo (field m 0x3A) (field m 0x3B)

def copyLen (m : Message) : Nat := (field m 0x3C).toNat

/-- What is copied from `SL_COPY_SRC_IMM`. -/
def chunk (m : Message) : Text := readAt (5 + 0x40) (copyLen m) m.payload

/-- The addresses the chunk is copied to. -/
def addresses (m : Message) : List Nat := List.range' (copyDest m) (copyLen m)

/-- The code of the sideload ends before the fields. -/
def EndsBeforeFields (sideload : Text) : Prop := sideload.length ≤ 0x38

/-! ### The law -/

/-- One packet for a file that is loaded at an address. -/
structure Carries (sideload bb : Text) (start : Nat) (m : Message) : Prop where
  command : m.command = CMD_HDBDOS_EXEC
  sector : m.payload.length = 5 + 256
  sideloaded : readAt 5 sideload.length m.payload = sideload
  length : 0 < copyLen m ∧ copyLen m ≤ ChunkSize ∧ (chunk m).length = copyLen m
  inside : start ≤ copyDest m ∧ copyDest m + copyLen m ≤ start + bb.length
  bytes : chunk m = readAt (copyDest m - start) (copyLen m) bb

/-- The packets for a file. From the last one to the first they cover the addresses of the file,
each address once, and only the last one is executed. -/
structure Tiles (sideload bb : Text) (start : Nat) (packets : List Message) : Prop where
  carries : ∀ m ∈ packets, Carries sideload bb start m
  covers : packets.reverse.flatMap addresses = List.range' start bb.length
  executes : ∃ front last, packets = front ++ [last] ∧ (∀ m ∈ front, jsrDest m = 0) ∧
    jsrDest last = start

/-! ### Buffers -/

theorem getD_set (buf : Text) (i j : Nat) (byte : UInt8) :
    (buf.set i byte).getD j 0 = if i = j ∧ i < buf.length then byte else buf.getD j 0 := by
  rw [List.getD_eq_getElem?_getD, List.getElem?_set, List.getD_eq_getElem?_getD]
  by_cases same : i = j
  · subst same
    by_cases inside : i < buf.length
    · rw [if_pos rfl, if_pos inside, if_pos ⟨rfl, inside⟩]
      rfl
    · rw [if_pos rfl, if_neg inside, if_neg fun both => inside both.2, List.getElem?_eq_none
        (Nat.le_of_not_lt inside)]
  · rw [if_neg same, if_neg fun both => same both.1]

theorem readAt_set_of_apart {offset count i : Nat} (apart : i < offset ∨ offset + count ≤ i)
    (byte : UInt8) (buf : Text) : readAt offset count (buf.set i byte) = readAt offset count buf := by
  refine List.ext_getElem? fun j => ?_
  simp only [readAt, List.getElem?_take, List.getElem?_drop]
  by_cases near : j < count
  · rw [if_pos near, if_pos near]
    exact List.getElem?_set_ne (by omega)
  · rw [if_neg near, if_neg near]

/-- A copy that fits is a write. -/
theorem copyInto_of_fits {offset : Nat} {data buf : Text}
    (fits : offset + data.length ≤ buf.length) : copyInto offset data buf = writeAt 0 offset data buf := by
  rw [copyInto, List.take_of_length_le (by omega)]

theorem length_writeAt_of_fits {offset : Nat} {data buf : Text}
    (fits : offset + data.length ≤ buf.length) : (writeAt 0 offset data buf).length = buf.length := by
  by_cases empty : data = []
  · rw [empty, writeAt_nil]
  · rw [length_writeAt 0 offset buf empty]
    exact Nat.max_eq_left fits

/-! ### One packet -/

section

variable {sideload payload : Text} (short : EndsBeforeFields sideload)
  (fits : payload.length ≤ ChunkSize) (dest : Nat) (exec : Bool)

/-- The buffer before the fields are set. -/
def loaded (sideload payload : Text) : Text :=
  writeAt 0 (5 + 64) payload (writeAt 0 5 sideload (List.replicate (5 + 256) 0))

include short fits

theorem length_loaded : (loaded sideload payload).length = 5 + 256 := by
  have short : sideload.length ≤ 56 := short
  have fits : payload.length ≤ 192 := fits
  have first : 5 + sideload.length ≤ (List.replicate (5 + 256) (0 : UInt8)).length := by
    rw [List.length_replicate]
    omega
  have second := length_writeAt_of_fits first
  rw [List.length_replicate] at second
  rw [loaded, length_writeAt_of_fits (by omega), second]

theorem readAt_loaded_sideload : readAt 5 sideload.length (loaded sideload payload) = sideload := by
  have short : sideload.length ≤ 56 := short
  have fits : payload.length ≤ 192 := fits
  have first : 5 + sideload.length ≤ (List.replicate (5 + 256) (0 : UInt8)).length := by
    rw [List.length_replicate]
    omega
  have second := length_writeAt_of_fits first
  rw [List.length_replicate] at second
  rw [loaded, readAt_writeAt_of_apart 0 (by omega) (by omega), readAt_writeAt]

/-- Between the sideload and the payload there are zeros. -/
theorem getD_loaded {i : Nat} (after : 5 + 0x38 ≤ i) (before : i < 5 + 64) :
    (loaded sideload payload).getD i 0 = 0 := by
  have short : sideload.length ≤ 56 := short
  rw [loaded, getD_writeAt, if_neg (by omega), getD_writeAt, if_neg (by omega),
    List.getD_eq_getElem?_getD, List.getElem?_replicate]
  split <;> rfl

theorem inject_payload : (inject sideload dest exec payload).payload =
    if exec then (((((loaded sideload payload).set 65 (UInt8.ofNat payload.length)).set 61
      (hi dest)).set 62 (lo dest)).set 63 (hi dest)).set 64 (lo dest)
    else (((loaded sideload payload).set 65 (UInt8.ofNat payload.length)).set 61
      (hi dest)).set 62 (lo dest) := by
  have short : sideload.length ≤ 56 := short
  have fits : payload.length ≤ 192 := fits
  have first : 5 + sideload.length ≤ (List.replicate (5 + 256) (0 : UInt8)).length := by
    rw [List.length_replicate]
    omega
  have second := length_writeAt_of_fits first
  rw [List.length_replicate] at second
  have buffer : copyInto (5 + 64) payload (copyInto 5 sideload (List.replicate (5 + 256) 0)) =
      loaded sideload payload := by
    rw [copyInto_of_fits first, copyInto_of_fits (by omega), loaded]
  rw [← buffer]
  rfl

/-- The fields of a packet are what it was made of, and its address has sixteen bits. -/
theorem inject_fields : (inject sideload dest exec payload).payload.length = 5 + 256 ∧
    readAt 5 sideload.length (inject sideload dest exec payload).payload = sideload ∧
    copyDest (inject sideload dest exec payload) = dest % 65536 ∧
    jsrDest (inject sideload dest exec payload) = (if exec then dest % 65536 else 0) ∧
    copyLen (inject sideload dest exec payload) = payload.length ∧
    chunk (inject sideload dest exec payload) = payload := by
  have length := length_loaded short fits
  have sideloaded := readAt_loaded_sideload short fits
  have zero (i : Nat) (after : 5 + 0x38 ≤ i) (before : i < 5 + 64) :=
    getD_loaded short fits after before
  have shape := inject_payload short fits dest exec
  have short : sideload.length ≤ 56 := short
  have small : payload.length ≤ 192 := fits
  have copied : readAt (5 + 0x40) payload.length (loaded sideload payload) = payload :=
    readAt_writeAt ..
  have copyLen_eq : copyLen (inject sideload dest exec payload) = payload.length := by
    rw [copyLen, field, shape]
    have byte : (UInt8.ofNat payload.length).toNat = payload.length := by
      rw [UInt8.toNat_ofNat']
      omega
    cases exec <;> simp [getD_set, length, byte]
  refine ⟨?_, ?_, ?_, ?_, copyLen_eq, ?_⟩
  · rw [shape]
    cases exec <;> simp [length]
  · rw [shape]
    cases exec
    · simp only [Bool.false_eq_true, if_false]
      rw [readAt_set_of_apart (by omega), readAt_set_of_apart (by omega),
        readAt_set_of_apart (by omega), sideloaded]
    · simp only [if_true]
      rw [readAt_set_of_apart (by omega), readAt_set_of_apart (by omega),
        readAt_set_of_apart (by omega), readAt_set_of_apart (by omega),
        readAt_set_of_apart (by omega), sideloaded]
  · rw [copyDest, field, field, shape, ← hiLo_hi_lo]
    cases exec <;> simp [getD_set, length]
  · rw [jsrDest, field, field, shape]
    cases exec
    · simp only [Bool.false_eq_true, if_false, getD_set, List.length_set, length]
      rw [if_neg (by omega), if_neg (by omega), if_neg (by omega), if_neg (by omega),
        if_neg (by omega), if_neg (by omega), zero _ (by omega) (by omega),
        zero _ (by omega) (by omega)]
      rfl
    · rw [← hiLo_hi_lo]
      simp [getD_set, length]
  · rw [chunk, copyLen_eq, shape]
    cases exec
    · simp only [Bool.false_eq_true, if_false]
      rw [readAt_set_of_apart (by omega), readAt_set_of_apart (by omega),
        readAt_set_of_apart (by omega), copied]
    · simp only [if_true]
      rw [readAt_set_of_apart (by omega), readAt_set_of_apart (by omega),
        readAt_set_of_apart (by omega), readAt_set_of_apart (by omega),
        readAt_set_of_apart (by omega), copied]

/-- A packet carries its bytes of the file when its address has sixteen bits. -/
theorem carries_inject {bb : Text} {start : Nat} (nonempty : payload ≠ []) (low : dest < 65536)
    (inside : start ≤ dest ∧ dest + payload.length ≤ start + bb.length)
    (bytes : payload = readAt (dest - start) payload.length bb) :
    Carries sideload bb start (inject sideload dest exec payload) := by
  obtain ⟨sector, sideloaded, copies, -, length, carried⟩ := inject_fields short fits dest exec
  rw [Nat.mod_eq_of_lt low] at copies
  refine ⟨rfl, sector, sideloaded, ?_, ?_, ?_⟩
  · rw [length, carried]
    exact ⟨List.length_pos_of_ne_nil nonempty, fits, rfl⟩
  · rw [length, copies]
    exact inside
  · rw [carried, copies, length]
    exact bytes

end

/-! ### The chunks -/

theorem Carries.extend {sideload bb more : Text} {start : Nat} {m : Message}
    (carries : Carries sideload bb start m) (longer : bb <+: more) :
    Carries sideload more start m := by
  obtain ⟨rest, rfl⟩ := longer
  obtain ⟨before, within⟩ := carries.inside
  refine ⟨carries.command, carries.sector, carries.sideloaded, carries.length,
    ⟨before, ?_⟩, ?_⟩
  · rw [List.length_append]
    omega
  · rw [carries.bytes, readAt, readAt, List.drop_append_of_le_length (by omega),
      List.take_append_of_le_length (by rw [List.length_drop]; omega)]

/-- The highest address of a chunk that has sixteen bits, from the end of the file. -/
def Reachable (bb : Text) : Prop := InkeyTrapInit + bb.length < 65536 + ChunkSize

/-- The loop covers what is left of the file, by the invariant that `endAddr` is the end of it. -/
theorem tiles_injectChunks {sideload : Text} (short : EndsBeforeFields sideload) {rounds : Nat}
    {bb : Text} (nonempty : bb ≠ []) (enough : bb.length ≤ rounds) (reachable : Reachable bb) :
    Tiles sideload bb InkeyTrapInit
      (injectChunks sideload rounds (InkeyTrapInit + bb.length) bb) := by
  induction rounds generalizing bb with
  | zero =>
    have positive := List.length_pos_of_ne_nil nonempty
    omega
  | succ rounds inductionHypothesis =>
    have positive := List.length_pos_of_ne_nil nonempty
    have inkeyTrapInit : InkeyTrapInit = 64018 := rfl
    have chunkSize : ChunkSize = 192 := rfl
    have low : InkeyTrapInit + bb.length < 65536 + ChunkSize := reachable
    rw [injectChunks, if_neg nonempty]
    by_cases more : bb.length > ChunkSize
    · -- all but the last injection
      rw [if_pos more]
      have length : (bb.drop (bb.length - ChunkSize)).length = ChunkSize := by
        rw [List.length_drop]
        omega
      have left : (bb.take (bb.length - ChunkSize)).length = bb.length - ChunkSize := by
        rw [List.length_take]
        omega
      have leftNonempty : bb.take (bb.length - ChunkSize) ≠ [] := by
        intro empty
        rw [empty, List.length_nil] at left
        omega
      have address : InkeyTrapInit + bb.length - ChunkSize =
          InkeyTrapInit + (bb.take (bb.length - ChunkSize)).length := by omega
      have rest := inductionHypothesis leftNonempty (by omega)
        (show InkeyTrapInit + _ < 65536 + ChunkSize by omega)
      have bytes : bb.drop (bb.length - ChunkSize) =
          readAt (InkeyTrapInit + bb.length - ChunkSize - InkeyTrapInit)
            (bb.drop (bb.length - ChunkSize)).length bb := by
        have offset : InkeyTrapInit + bb.length - ChunkSize - InkeyTrapInit =
            bb.length - ChunkSize := by omega
        rw [readAt, offset, List.take_length]
      have head := carries_inject short (le_of_eq length) (InkeyTrapInit + bb.length - ChunkSize)
        false (List.ne_nil_of_length_pos (by omega)) (by omega) (by omega) bytes
      obtain ⟨-, -, copies, skips, copied, -⟩ := inject_fields short (le_of_eq length)
        (InkeyTrapInit + bb.length - ChunkSize) false
      rw [← address] at rest
      refine ⟨?_, ?_, ?_⟩
      · intro m member
        rcases List.mem_cons.mp member with rfl | later
        · exact head
        · exact (rest.carries m later).extend (List.take_prefix _ _)
      · rw [List.reverse_cons, List.flatMap_append, rest.covers, List.flatMap_singleton, addresses,
          copies, copied, length, left, Nat.mod_eq_of_lt (by omega)]
        have together : List.range' InkeyTrapInit (bb.length - ChunkSize) ++
            List.range' (InkeyTrapInit + (bb.length - ChunkSize)) ChunkSize =
            List.range' InkeyTrapInit (bb.length - ChunkSize + ChunkSize) := List.range'_append_1
        rw [Nat.sub_add_cancel (Nat.le_of_lt more)] at together
        rw [← together, Nat.add_sub_assoc (Nat.le_of_lt more)]
      · obtain ⟨front, last, same, noJump, jump⟩ := rest.executes
        refine ⟨_ :: front, last, by rw [same]; rfl, ?_, jump⟩
        rw [List.forall_mem_cons]
        exact ⟨skips, noJump⟩
    · -- the last injection
      rw [if_neg more]
      have fits : bb.length ≤ ChunkSize := Nat.le_of_not_lt more
      have bytes : bb = readAt (InkeyTrapInit - InkeyTrapInit) bb.length bb := by
        rw [readAt, Nat.sub_self, List.drop_zero, List.take_length]
      have only := carries_inject short fits InkeyTrapInit true nonempty (by omega)
        ⟨le_refl _, le_refl _⟩ bytes
      obtain ⟨-, -, copies, jumps, copied, -⟩ := inject_fields short fits InkeyTrapInit true
      refine ⟨List.forall_mem_singleton.mpr only, ?_, [], _, rfl, by simp, jumps⟩
      rw [List.reverse_singleton, List.flatMap_singleton, addresses, copies, copied]
      rfl

/-! ### The injections -/

/-- After the message on the screen, the packets tile the memory of the inkey trap, if it is not
empty and every address has sixteen bits. -/
theorem tiles_sendInitialInjections (o : Outside) {sideload bb : Text}
    (sideloadFile : o.sideload = some sideload) (short : EndsBeforeFields sideload)
    (inkeyFile : o.inkey = some bb) (nonempty : bb ≠ []) (reachable : bb.length ≤ 1709) :
    ∃ text packets, sendInitialInjections o = some (text :: packets) ∧
      Tiles sideload bb 0xFA12 packets := by
  have low : Reachable bb := by
    show 64018 + bb.length < 65536 + 192
    omega
  refine ⟨inject sideload 0x04A0 false (asciiToInjectBytes "(CLEAR KEY TOGGLES NAVIGATOR.)"), _,
    ?_, tiles_injectChunks short nonempty (Nat.le_succ _) low⟩
  rw [sendInitialInjections, sideloadFile, inkeyFile]
  rfl

/-- The code of `sideload.asm`. -/
def sideloadCode : Text :=
  [0x34, 0x77, 0x1A, 0x50, 0x10, 0xBE, 0x06, 0x38, 0x8E, 0x06, 0x40, 0xF6, 0x06, 0x3C, 0xA6, 0x80,
    0xA7, 0xA0, 0x5A, 0x26, 0xF9, 0xBE, 0x06, 0x3A, 0x27, 0x02, 0xAD, 0x84, 0x35, 0xF7]

/-- Twice the size of a chunk exactly. -/
theorem tiles_sendInitialInjections_twoChunks :
    ∃ text packets, sendInitialInjections
        ⟨[], some sideloadCode, some (List.replicate 384 0x12), fun _ => none⟩ =
          some (text :: packets) ∧
      Tiles sideloadCode (List.replicate 384 0x12) 0xFA12 packets :=
  tiles_sendInitialInjections _ rfl (show 30 ≤ 56 by decide) rfl (by decide)
    (by rw [List.length_replicate]; decide)

/-- The addresses of a longer trap wrap around. -/
theorem not_tiles_longTrap :
    ¬∃ text packets, sendInitialInjections
        ⟨[], some sideloadCode, some (List.replicate 1710 0x12), fun _ => none⟩ =
          some (text :: packets) ∧
      Tiles sideloadCode (List.replicate 1710 0x12) 0xFA12 packets := by
  rintro ⟨text, packets, sent, tiles⟩
  have short : EndsBeforeFields sideloadCode := show 30 ≤ 56 by decide
  obtain ⟨-, rfl⟩ := List.cons.inj (Option.some.inj sent)
  generalize trap : List.replicate 1710 (0x12 : UInt8) = bb at tiles
  have length : bb.length = 1710 := by rw [← trap, List.length_replicate]
  have nonempty : bb ≠ [] := List.ne_nil_of_length_pos (by omega)
  have more : bb.length > ChunkSize := by rw [length]; decide
  rw [injectChunks, if_neg nonempty, if_pos more] at tiles
  have fits : (bb.drop (bb.length - ChunkSize)).length ≤ ChunkSize := by
    rw [List.length_drop]
    omega
  have inside := (tiles.carries _ List.mem_cons_self).inside.1
  rw [(inject_fields short fits _ _).2.2.1, length] at inside
  revert inside
  decide

end Frobio.HdbDos
