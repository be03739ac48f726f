/-
This file shows that the rings of a socket are streams: what `TcpSend` and `TcpRecv`
do to them is to append bytes to what was sent, and to take bytes from what is to be
received, in order and in full, whatever the pointers are and whenever the chip goes
on. `Moves` is that statement for one piece of the program, and pieces compose.

A chip that keeps transmitting and receiving lets every call return.
-/

import Frobio.Lib.Loop
import Frobio.Axcore.Socket

namespace Frobio.Axcore

open Memory Ring Loop

variable {sock : Sock} {schedule : Nat → List Event} {c c' c'' : Chip} {w w' : World}

/-! ### Between the calls -/

/-- The program's registers are the chip's. -/
structure Idle (c : Chip) : Prop where
  sane : Sane c
  txWr : c.txWr = c.txEnd
  rxRd : c.rxRd = c.rxStart

/-- Between idle states, these bytes were appended to what was sent, and those taken from what
is to be received. -/
structure Moves (sock : Sock) (c c' : Chip) (sent received : List UInt8) : Prop where
  idle : Idle c'
  outStream : c'.outStream sock = c.outStream sock ++ sent
  inStream : c.inStream sock = received ++ c'.inStream sock

theorem Moves.refl (idle : Idle c) : Moves sock c c [] [] :=
  ⟨idle, (List.append_nil _).symm, rfl⟩

theorem Moves.trans {sent sent' received received' : List UInt8}
    (first : Moves sock c c' sent received) (second : Moves sock c' c'' sent' received') :
    Moves sock c c'' (sent ++ sent') (received ++ received') where
  idle := second.idle
  outStream := by rw [second.outStream, first.outStream, List.append_assoc]
  inStream := by rw [first.inStream, second.inStream, List.append_assoc]

theorem Passes.idle (passes : Passes sock c c') (idle : Idle c) : Idle c' where
  sane := passes.sane
  txWr := by rw [passes.txWr, passes.txEnd, idle.txWr]
  rxRd := by rw [passes.rxRd, passes.rxStart, idle.rxRd]

theorem Passes.moves (passes : Passes sock c c') (idle : Idle c) : Moves sock c c' [] [] :=
  ⟨passes.idle idle, passes.outStream.trans (List.append_nil _).symm, passes.inStream.symm⟩

theorem passes_access (schedule : Nat → List Event) (apart : sock.Apart) (sane : Sane w.chip) :
    Passes sock w.chip (access sock schedule w).chip :=
  passes_events sane apart _

theorem passes_wizCheck (schedule : Nat → List Event) (apart : sock.Apart) (sane : Sane w.chip) :
    Passes sock w.chip (wizCheck sock schedule w).2.chip := by
  rw [wizCheck]
  split
  · exact passes_access schedule apart sane
  · split
    · exact passes_access schedule apart sane
    · exact passes_access schedule apart sane

/-! ### Receiving -/

/-- The program takes `n` bytes over by moving the pointer of the receive ring. -/
theorem Sane.taken (sock : Sock) (sane : Sane c) {n : Nat} (enough : n ≤ c.rxRsr) :
    Sane { c with rxStart := (c.rxStart + n) % 65536 } ∧
      c.inStream sock = window sock.rxRing RING_SIZE c.memory c.rxStart n ++
        Chip.inStream sock { c with rxStart := (c.rxStart + n) % 65536 } := by
  have few := sane.rxRsr
  have start := sane.rxStart
  have finish := sane.rxWr
  have fewer : Chip.rxRsr { c with rxStart := (c.rxStart + n) % 65536 } = c.rxRsr - n := by
    simp only [Chip.rxRsr] at enough ⊢
    simp only [Chip.rxRsr, RING_SIZE] at few
    omega
  refine ⟨⟨sane.txEnd, sane.txRd, Nat.mod_lt _ (by decide), sane.rxWr, sane.waiting, ?_⟩, ?_⟩
  · rw [fewer]
    omega
  · have split : c.rxRsr = n + (c.rxRsr - n) := by omega
    have wrap : (c.rxStart + n) % 65536 % RING_SIZE = (c.rxStart + n) % RING_SIZE :=
      Nat.mod_mod_of_dvd _ (by decide)
    rw [Chip.inStream, Chip.inStream, fewer]
    dsimp only
    rw [window_mod _ wrap, ← List.append_assoc, ← window_add, ← split]

/-- The first bytes to be received are the first of the receive ring. -/
theorem Sane.take_inStream (sane : Sane c) {n : Nat} (enough : n ≤ c.rxRsr) :
    (c.inStream sock).take n = window sock.rxRing RING_SIZE c.memory c.rxStart n := by
  rw [(sane.taken sock enough).2, List.take_left' (length_window ..)]

theorem passes_wizRecvGetBytesWaiting (apart : sock.Apart) (sane : Sane w.chip)
    {e : UInt8} {bytesWaiting : Nat}
    (asked : wizRecvGetBytesWaiting sock schedule w = (e, bytesWaiting, w')) :
    Passes sock w.chip w'.chip ∧ (e = OKAY → bytesWaiting = w'.chip.rxRsr) := by
  have checked := passes_wizCheck schedule apart sane
  rw [wizRecvGetBytesWaiting] at asked
  split at asked
  rename_i e' w₁ check
  rw [check] at checked
  split at asked
  · rename_i failed
    cases asked
    exact ⟨checked, fun okay => absurd okay failed⟩
  · cases asked
    exact ⟨checked.trans (passes_access schedule apart checked.sane), fun _ => rfl⟩

theorem moves_wizRecvChunkTry (apart : sock.Apart) (idle : Idle w.chip) {n : Nat} {e : UInt8}
    {buf : List UInt8} (tried : wizRecvChunkTry sock schedule w n = (e, buf, w')) :
    Moves sock w.chip w'.chip [] buf ∧ (e = OKAY → buf.length = n) ∧ (e ≠ OKAY → buf = []) := by
  rw [wizRecvChunkTry] at tried
  split at tried
  rename_i e₁ bytesWaiting w₁ asked
  obtain ⟨first, truthful⟩ := passes_wizRecvGetBytesWaiting apart idle.sane asked
  split at tried
  · rename_i failed
    cases tried
    exact ⟨first.moves idle, fun okay => absurd okay failed, fun _ => rfl⟩
  rename_i okay
  split at tried
  · cases tried
    exact ⟨first.moves idle, fun okay => absurd okay (by decide), fun _ => rfl⟩
  rename_i enough
  -- the pointer is read, the bytes are read, the pointer is written, and RECV
  dsimp only at tried
  have second := passes_access schedule apart first.sane
  generalize access sock schedule w₁ = w₂ at tried second
  have third := passes_access schedule apart second.sane
  generalize access sock schedule w₂ = w₃ at tried third
  have fourth := passes_access schedule apart third.sane
  generalize access sock schedule w₃ = w₄ at tried fourth
  have written : Sane { w₄.chip with rxRd := (w₂.chip.rxRd + n) % 65536 } :=
    ⟨fourth.sane.txEnd, fourth.sane.txRd, fourth.sane.rxStart, fourth.sane.rxWr,
      fourth.sane.waiting, fourth.sane.rxRsr⟩
  have fifth := passes_access schedule
    (w := ⟨{ w₄.chip with rxRd := (w₂.chip.rxRd + n) % 65536 }, w₄.turns⟩) apart written
  simp only [Prod.mk.injEq] at tried
  obtain ⟨rfl, rfl, rfl⟩ := tried
  generalize access sock schedule _ = w₅ at fifth ⊢
  have enough₁ : n ≤ w₁.chip.rxRsr := by
    have := truthful (Classical.not_not.mp okay)
    omega
  have enough₃ : n ≤ w₃.chip.rxRsr := enough₁.trans (second.rxRsr.trans third.rxRsr)
  have enough₅ : n ≤ w₅.chip.rxRsr := enough₃.trans (fourth.rxRsr.trans fifth.rxRsr)
  have through := (first.trans second).trans third
  have start : w₂.chip.rxRd = w₅.chip.rxStart := by
    rw [fifth.rxStart]
    show w₂.chip.rxRd = w₄.chip.rxStart
    rw [fourth.rxStart, through.rxStart, second.rxRd, first.rxRd, idle.rxRd]
  have pointer : w₅.chip.rxRd = (w₅.chip.rxStart + n) % 65536 := by
    rw [fifth.rxRd, ← start]
  have stream : w₅.chip.inStream sock = w₃.chip.inStream sock := by
    rw [fifth.inStream]
    exact fourth.inStream
  have small : n ≤ RING_SIZE := enough₃.trans third.sane.rxRsr
  have read : get sock.rxRing RING_SIZE w₃.chip.memory (w₂.chip.rxRd % RING_SIZE) n =
      window sock.rxRing RING_SIZE w₅.chip.memory w₅.chip.rxStart n := by
    rw [get_eq_window (Nat.mod_lt _ (by decide)) small, window_mod n (Nat.mod_mod _ _),
      ← fifth.sane.take_inStream enough₅, stream, third.sane.take_inStream enough₃,
      third.rxStart, second.rxRd, first.rxRd, idle.rxRd, second.rxStart, first.rxStart]
  obtain ⟨sane, taken⟩ := fifth.sane.taken sock enough₅
  rw [← pointer] at sane taken
  refine ⟨⟨⟨sane, ?_, rfl⟩, ?_, ?_⟩, fun _ => ?_, fun failed => absurd rfl failed⟩
  · show w₅.chip.txWr = w₅.chip.txEnd
    rw [fifth.txWr, fifth.txEnd]
    show w₄.chip.txWr = w₄.chip.txEnd
    exact ((through.trans fourth).idle idle).txWr
  · rw [List.append_nil]
    show w₅.chip.outStream sock = _
    rw [fifth.outStream]
    exact (through.trans fourth).outStream
  · rw [read, ← taken, stream, through.inStream]
  · rw [read, length_window]

theorem moves_wizRecvChunk (apart : sock.Apart) {rounds n : Nat} {e : UInt8} {buf : List UInt8}
    (idle : Idle w.chip)
    (received : wizRecvChunk sock schedule rounds w n = some (e, buf, w')) :
    Moves sock w.chip w'.chip [] buf ∧ (e = OKAY → buf.length = n) ∧ (e ≠ OKAY → buf = []) := by
  induction rounds generalizing w with
  | zero => cases received
  | succ rounds inductionHypothesis =>
    rw [wizRecvChunk] at received
    split at received
    rename_i e₁ buf₁ w₁ tried
    obtain ⟨moves, -, nothing⟩ := moves_wizRecvChunkTry apart idle tried
    split at received
    · rename_i notYet
      rw [nothing (by rw [notYet]; decide)] at moves
      obtain ⟨later, full, empty⟩ := inductionHypothesis moves.idle received
      exact ⟨moves.trans later, full, empty⟩
    · cases received
      exact moves_wizRecvChunkTry apart idle tried

theorem chunkOf_le (n : Nat) : chunkOf n ≤ n := by
  rw [chunkOf]
  split
  · exact Nat.le_refl n
  · omega

/-- What `TcpRecv` delivers is what is taken from the stream, and if no error stops it, all that
was asked for. -/
theorem moves_tcpRecv (apart : sock.Apart) {rounds n : Nat} {e : UInt8} {buf : List UInt8}
    (idle : Idle w.chip) (received : tcpRecv sock schedule rounds w n = some (e, buf, w')) :
    Moves sock w.chip w'.chip [] buf ∧ buf.length ≤ n ∧ (e = OKAY → buf.length = n) := by
  induction rounds generalizing w n buf with
  | zero => cases received
  | succ rounds inductionHypothesis =>
    rw [tcpRecv] at received
    split at received
    · rename_i nothing
      cases received
      exact ⟨.refl idle, Nat.zero_le _, fun _ => nothing.symm⟩
    · have least := chunkOf_le n
      split at received
      · cases received
      · rename_i e₁ buf₁ w₁ chunk
        obtain ⟨moves, full, empty⟩ := moves_wizRecvChunk apart idle chunk
        split at received
        · rename_i failed
          cases received
          refine ⟨moves, ?_, fun okay => absurd okay failed⟩
          rw [empty failed]
          exact Nat.zero_le _
        · rename_i okay
          have length := full (Classical.not_not.mp okay)
          split at received
          · cases received
          · rename_i e₂ rest w₂ later
            cases received
            obtain ⟨onward, short, whole⟩ := inductionHypothesis moves.idle later
            refine ⟨moves.trans onward, ?_, fun okay => ?_⟩
            · rw [List.length_append]
              omega
            · have := whole okay
              rw [List.length_append]
              omega

/-! ### Sending -/

theorem passes_wizReserveToSend (apart : sock.Apart) {rounds n txPtr : Nat} (sane : Sane w.chip)
    (reserved : wizReserveToSend sock schedule rounds w n = some (txPtr, w')) :
    Passes sock w.chip w'.chip ∧ w'.chip.waiting + n ≤ RING_SIZE ∧
      txPtr = w'.chip.txWr % RING_SIZE := by
  induction rounds generalizing w with
  | zero => cases reserved
  | succ rounds inductionHypothesis =>
    rw [wizReserveToSend] at reserved
    have first := passes_access schedule apart sane
    dsimp only at reserved
    generalize access sock schedule w = w₁ at reserved first
    split at reserved
    · obtain ⟨later, room, pointer⟩ := inductionHypothesis first.sane reserved
      exact ⟨first.trans later, room, pointer⟩
    · rename_i enough
      have second := passes_access schedule apart first.sane
      cases reserved
      refine ⟨first.trans second, ?_, rfl⟩
      have fewer := second.waiting
      have few := first.sane.waiting
      rw [Chip.txFsr] at enough
      omega

/-- Bytes are put behind those that wait, and not sent yet. -/
structure Staged (sock : Sock) (c : Chip) (data : List UInt8) : Prop where
  idle : Idle c
  room : c.waiting + data.length ≤ RING_SIZE
  put : window sock.txRing RING_SIZE c.memory c.txEnd data.length = data

theorem Passes.staged {data : List UInt8} (passes : Passes sock c c')
    (staged : Staged sock c data) : Staged sock c' data where
  idle := passes.idle staged.idle
  room := (Nat.add_le_add_right passes.waiting _).trans staged.room
  put := by rw [passes.txEnd, passes.free _ staged.room, staged.put]

theorem staged_wizDataToSend (schedule : Nat → List Event) (apart : sock.Apart)
    (idle : Idle w.chip) {txPtr : Nat} {data : List UInt8}
    (room : w.chip.waiting + data.length ≤ RING_SIZE)
    (pointer : txPtr = w.chip.txEnd % RING_SIZE) :
    Moves sock w.chip (wizDataToSend sock schedule w txPtr data).chip [] [] ∧
      Staged sock (wizDataToSend sock schedule w txPtr data).chip data := by
  have first := passes_access schedule apart idle.sane
  rw [wizDataToSend]
  generalize access sock schedule w = w₁ at first
  dsimp only
  have sized : 0 < RING_SIZE := by decide
  have inside := Nat.mod_lt w₁.chip.txEnd sized
  have room₁ := (Nat.add_le_add_right first.waiting _).trans room
  have behind : w₁.chip.txEnd % RING_SIZE = (w₁.chip.txRd + w₁.chip.waiting) % RING_SIZE := by
    have start := first.sane.txRd
    have finish := first.sane.txEnd
    simp only [Chip.waiting, RING_SIZE]
    omega
  have idle₁ := first.idle idle
  rw [pointer, ← first.txEnd]
  have after : Idle { w₁.chip with
      memory := put sock.txRing RING_SIZE w₁.chip.memory (w₁.chip.txEnd % RING_SIZE) data } :=
    ⟨⟨idle₁.sane.txEnd, idle₁.sane.txRd, idle₁.sane.rxStart, idle₁.sane.rxWr, idle₁.sane.waiting,
      idle₁.sane.rxRsr⟩, idle₁.txWr, idle₁.rxRd⟩
  refine ⟨⟨after, ?_, ?_⟩, after, room₁, ?_⟩
  · rw [List.append_nil, ← first.outStream, Chip.outStream, Chip.outStream]
    show w₁.chip.out ++ window sock.txRing RING_SIZE _ w₁.chip.txRd w₁.chip.waiting = _
    rw [behind, window_put_of_before sized room₁]
  · rw [List.nil_append, ← first.inStream, Chip.inStream, Chip.inStream]
    show _ = window sock.rxRing RING_SIZE _ w₁.chip.rxStart w₁.chip.rxRsr ++ w₁.chip.incoming
    rw [window_put_of_apart sized inside (by omega) (.inr apart)]
  · rw [window_mod data.length (Nat.mod_mod _ _).symm, window_put_self inside (by omega)]

/-- The command SEND, with the pointer moved past the bytes that were put. -/
theorem Sane.sent (sock : Sock) (sane : Sane c) {n : Nat} (fits : c.waiting + n ≤ RING_SIZE) :
    Sane { c with txEnd := (c.txEnd + n) % 65536 } ∧
      Chip.outStream sock { c with txEnd := (c.txEnd + n) % 65536 } =
        c.outStream sock ++ window sock.txRing RING_SIZE c.memory c.txEnd n := by
  have start := sane.txRd
  have finish := sane.txEnd
  have more : Chip.waiting { c with txEnd := (c.txEnd + n) % 65536 } = c.waiting + n := by
    simp only [Chip.waiting, RING_SIZE] at fits ⊢
    omega
  have behind : (c.txRd + c.waiting) % RING_SIZE = c.txEnd % RING_SIZE := by
    simp only [Chip.waiting, RING_SIZE]
    omega
  refine ⟨⟨Nat.mod_lt _ (by decide), sane.txRd, sane.rxStart, sane.rxWr, ?_, sane.rxRsr⟩, ?_⟩
  · rw [more]
    exact fits
  · rw [Chip.outStream, more]
    dsimp only
    rw [window_add, window_mod n behind, ← List.append_assoc, Chip.outStream]

theorem moves_wizFinalizeSend (schedule : Nat → List Event) (apart : sock.Apart) {data : List UInt8}
    (staged : Staged sock w.chip data) :
    Moves sock w.chip (wizFinalizeSend sock schedule w data.length).chip data [] := by
  -- the pointer is read and written, and SEND
  simp only [wizFinalizeSend]
  have first := passes_access schedule apart staged.idle.sane
  generalize access sock schedule w = w₁ at first
  have second := passes_access schedule apart first.sane
  generalize access sock schedule w₁ = w₂ at second
  have through := first.trans second
  have staged₂ := through.staged staged
  have sane₂ := staged₂.idle.sane
  have written : Sane { w₂.chip with txWr := (w₁.chip.txWr + data.length) % 65536 } :=
    ⟨sane₂.txEnd, sane₂.txRd, sane₂.rxStart, sane₂.rxWr, sane₂.waiting, sane₂.rxRsr⟩
  have third := passes_access schedule
    (w := ⟨{ w₂.chip with txWr := (w₁.chip.txWr + data.length) % 65536 }, w₂.turns⟩) apart written
  dsimp only at third
  generalize access sock schedule _ = w₃ at third ⊢
  have room₃ := (Nat.add_le_add_right third.waiting data.length).trans staged₂.room
  have put₃ : window sock.txRing RING_SIZE w₃.chip.memory w₃.chip.txEnd data.length = data := by
    rw [third.txEnd]
    exact (third.free _ staged₂.room).trans staged₂.put
  have pointer : w₃.chip.txWr = (w₃.chip.txEnd + data.length) % 65536 := by
    rw [third.txWr, third.txEnd]
    show (w₁.chip.txWr + data.length) % 65536 = (w₂.chip.txEnd + data.length) % 65536
    rw [second.txEnd, (first.idle staged.idle).txWr]
  obtain ⟨sane, out⟩ := third.sane.sent sock room₃
  rw [← pointer] at sane out
  refine ⟨⟨sane, rfl, ?_⟩, ?_, ?_⟩
  · show w₃.chip.rxRd = w₃.chip.rxStart
    rw [third.rxRd, third.rxStart]
    exact staged₂.idle.rxRd
  · rw [out, put₃, third.outStream]
    exact congrArg (· ++ data) through.outStream
  · show _ = w₃.chip.inStream sock
    rw [third.inStream]
    exact through.inStream.symm

theorem moves_wizSendChunk (apart : sock.Apart) {rounds : Nat} {data : List UInt8} {e : UInt8}
    (idle : Idle w.chip)
    (sent : wizSendChunk sock schedule rounds w data = some (e, w')) :
    (e = OKAY → Moves sock w.chip w'.chip data []) ∧
      (e ≠ OKAY → Moves sock w.chip w'.chip [] []) := by
  have checked := passes_wizCheck schedule apart idle.sane
  rw [wizSendChunk] at sent
  split at sent
  rename_i e₀ w₀ check
  rw [check] at checked
  split at sent
  · rename_i failed
    cases sent
    exact ⟨fun okay => absurd okay failed, fun _ => checked.moves idle⟩
  split at sent
  · cases sent
  rename_i txPtr w₁ reserved
  obtain ⟨reserves, room, pointer⟩ := passes_wizReserveToSend apart checked.sane reserved
  have through := checked.trans reserves
  have idle₁ := through.idle idle
  cases sent
  have pointer₁ : txPtr = w₁.chip.txEnd % RING_SIZE := by rw [pointer, idle₁.txWr]
  obtain ⟨still, staged⟩ := staged_wizDataToSend schedule apart idle₁ room pointer₁
  have sends := moves_wizFinalizeSend schedule apart staged
  exact ⟨fun _ => ((through.moves idle).trans still).trans sends, fun failed => absurd rfl failed⟩

/-- What `TcpSend` appends is a beginning of the buffer, and all of it if no error stops it. -/
theorem moves_tcpSend (apart : sock.Apart) {rounds : Nat} {p : List UInt8} {e : UInt8}
    (idle : Idle w.chip) (returned : tcpSend sock schedule rounds w p = some (e, w')) :
    ∃ sent, Moves sock w.chip w'.chip sent [] ∧ sent <+: p ∧ (e = OKAY → sent = p) := by
  induction rounds generalizing w p with
  | zero => cases returned
  | succ rounds inductionHypothesis =>
    rw [tcpSend] at returned
    split at returned
    · rename_i nothing
      cases returned
      exact ⟨[], .refl idle, List.nil_prefix, fun _ => (List.length_eq_zero_iff.mp nothing).symm⟩
    · split at returned
      · cases returned
      · rename_i e₁ w₁ chunk
        obtain ⟨moved, stopped⟩ := moves_wizSendChunk apart idle chunk
        split at returned
        · rename_i failed
          cases returned
          exact ⟨[], stopped failed, List.nil_prefix, fun okay => absurd okay failed⟩
        · rename_i okay
          have moves := moved (Classical.not_not.mp okay)
          obtain ⟨rest, later, begins, whole⟩ := inductionHypothesis moves.idle returned
          refine ⟨_, moves.trans later, ?_, fun okay => ?_⟩
          · conv_rhs => rw [← List.take_append_drop (chunkOf p.length) p]
            exact (List.prefix_append_right_inj _).mpr begins
          · rw [whole okay, List.take_append_drop]

end Frobio.Axcore
