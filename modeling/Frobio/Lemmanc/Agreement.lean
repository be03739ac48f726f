/-
This file says when `Bridge2` does what it is meant to with the replies of the waiter.

A path is cut after sixty characters, as the copy of it for the log is ended at the wrong place. A
Read or a ReadLn receives all that the waiter has into the buffer of 256 bytes, and both leave Y as
the caller had it, as WritLn does. `Harmless` is the condition under which none of this shows, and
`agrees_iff_harmless` says that it is exact.
-/

import Frobio.Lemmanc.Replies

namespace Frobio.Lemmanc

open Coms SlashPath Memory Frobio.Ring Positional LemMan

/-! ### Memory -/

section

variable (m : Machine) {task : Task} {address : Nat} {data : Text}

theorem stores_put :
    (m.put task address data).stores = m.stores ++ [⟨task, address, data.length⟩] := rfl

theorem memory_put :
    (m.put task address data).memory task = Ring.put 0 SPACE (m.memory task) address data :=
  Function.update_self ..

theorem memory_put_of_ne {other : Task} (apart : other ≠ task) :
    (m.put task address data).memory other = m.memory other :=
  Function.update_of_ne apart ..

theorem length_mload (count : Nat) : (m.load task address count).length = count :=
  length_window ..

theorem load_put_self (inside : address < SPACE) (fits : data.length ≤ SPACE) :
    (m.put task address data).load task address data.length = data := by
  rw [Machine.load, memory_put]
  exact window_put_self inside fits

theorem load_add (first second : Nat) :
    m.load task address (first + second) =
      m.load task address first ++ m.load task (address + first) second :=
  window_add ..

/-- A store further on in the buffer leaves what comes before alone. -/
theorem put_inBuffer_of_lt {j k : Nat} (before : j < k) (fits : k + data.length ≤ SPACE) :
    (m.put .system (m.inBuffer k) data).memory .system (m.inBuffer j) =
      m.memory .system (m.inBuffer j) := by
  have sized : 0 < SPACE := by decide
  have same : m.inBuffer j = (m.inBuffer k + (j + (SPACE - k))) % SPACE := by
    rw [Machine.inBuffer, Machine.inBuffer, Nat.mod_add_mod,
      show m.buffer.toNat + k + (j + (SPACE - k)) = m.buffer.toNat + j + SPACE by omega,
      Nat.add_mod_right]
  have unchanged := @put_apply_of_le UInt8 0 SPACE (m.memory .system) (m.inBuffer k)
    (j + (SPACE - k)) data (Nat.mod_lt _ sized) (by omega) (by omega)
  rw [Nat.zero_add, ← same] at unchanged
  rw [memory_put]
  exact unchanged

theorem put_inBuffer_self {k : Nat} (b : UInt8) :
    (m.put .system (m.inBuffer k) [b]).memory .system (m.inBuffer k) = b := by
  have inside : m.inBuffer k < SPACE := Nat.mod_lt _ (by decide)
  have here := @put_apply_of_lt UInt8 0 SPACE (m.memory .system) (m.inBuffer k) 0 [b] inside
    (show 1 ≤ SPACE by decide) Nat.one_pos
  rw [Nat.zero_add, Nat.add_zero, Nat.mod_eq_of_lt inside] at here
  rw [memory_put]
  exact here

/-! ### Stores -/

/-- The store is in the buffer of 256 bytes, or in the user's own, which is where X points to and
as long as Y says. -/
def Within (buffer : UInt16) (regs : Regs) (store : Store) : Prop :=
  match store.task with
  | .system => (store.address + SPACE - buffer.toNat) % SPACE + store.count ≤ 256
  | .user => store.address = regs.rx.toNat ∧ store.count ≤ regs.ry.toNat

/-- All stores have been in the two buffers. -/
def Safe (regs : Regs) (m : Machine) : Prop := ∀ store ∈ m.stores, Within m.buffer regs store

theorem within_inBuffer {regs : Regs} {k count : Nat} (inside : k + count ≤ 256)
    (small : k ≤ 256) : Within m.buffer regs ⟨.system, m.inBuffer k, count⟩ := by
  have := m.buffer.toNat_lt
  show (m.inBuffer k + SPACE - m.buffer.toNat) % SPACE + count ≤ 256
  rw [Machine.inBuffer, SPACE]
  omega

theorem inBuffer_zero : m.inBuffer 0 = m.buffer.toNat := Nat.mod_eq_of_lt m.buffer.toNat_lt

variable {m}

theorem Safe.put {regs : Regs} (safe : Safe regs m)
    (within : Within m.buffer regs ⟨task, address, data.length⟩) :
    Safe regs (m.put task address data) := by
  intro store member
  rw [stores_put, List.mem_append, List.mem_singleton] at member
  rcases member with before | rfl
  · exact safe store before
  · exact within

theorem Safe.os9Move {regs : Regs} (safe : Safe regs m) {answer : UInt8} {count src dest : Nat}
    {srcMap destMap : Task} (within : Within m.buffer regs ⟨destMap, dest, count⟩) :
    Safe regs (os9Move answer count src srcMap dest destMap m).2 := by
  unfold Lemmanc.os9Move
  split
  · exact safe
  · refine safe.put ?_
    rw [length_mload]
    exact within

end

/-! ### The borrowed part of the buffer -/

/-- What the loop leaves: the sixty bytes before the place that it ends the copy at. -/
theorem hyperVerbosity_kept {rounds i : Nat} (all : i + rounds = 60) (m : Machine) :
    (hyperVerbosity rounds i m).buffer = m.buffer ∧
      (hyperVerbosity rounds i m).services = m.services ∧
      (∀ j < 60, (hyperVerbosity rounds i m).memory .system (m.inBuffer j) =
        m.memory .system (m.inBuffer j)) ∧
      (hyperVerbosity rounds i m).memory .system (m.inBuffer 60) = 0 := by
  induction rounds generalizing i m with
  | zero =>
    obtain rfl : i = 60 := by omega
    refine ⟨rfl, rfl, fun j before => ?_, put_inBuffer_self m 0⟩
    exact put_inBuffer_of_lt m before (by unfold SPACE; simp)
  | succ rounds inductionHypothesis =>
    rw [hyperVerbosity]
    obtain ⟨buffer, services, kept, ended⟩ := inductionHypothesis (i := i + 1) (by omega)
      (m.put .system (m.inBuffer (192 + i))
        [if m.memory .system (m.inBuffer i) = CR then 0 else m.memory .system (m.inBuffer i)])
    refine ⟨buffer, services, fun j before => (kept j before).trans ?_, ended⟩
    refine put_inBuffer_of_lt m (by omega) ?_
    rw [List.length_singleton, SPACE]
    omega

theorem Safe.hyperVerbosity {regs : Regs} {rounds i : Nat} (all : i + rounds = 60) {m : Machine}
    (safe : Safe regs m) : Safe regs (hyperVerbosity rounds i m) := by
  induction rounds generalizing i m with
  | zero => exact safe.put (within_inBuffer m (by simp; omega) (by omega))
  | succ rounds inductionHypothesis =>
    rw [Lemmanc.hyperVerbosity]
    exact inductionHypothesis (by omega)
      (safe.put (within_inBuffer m (by simp; omega) (by omega)))

/-! ### The name in the request -/

/-- A byte 0 at some place ends the name there. -/
theorem extractName_cut {first rest : Text} (tail : Text) {name : Text}
    (extracted : extractName (first ++ rest) = some name) :
    extractName (first ++ 0 :: tail) = some (name.take first.length) := by
  induction first generalizing name with
  | nil =>
    rw [List.length_nil, List.take_zero]
    rfl
  | cons b first inductionHypothesis =>
    rw [List.cons_append, extractName] at extracted ⊢
    split at extracted
    · rename_i terminator
      rw [if_pos terminator]
      obtain rfl := Option.some_inj.mp extracted
      rfl
    · rename_i other
      rw [if_neg other]
      split at extracted
      · cases extracted
      · rename_i good
        rw [if_neg good]
        split at extracted
        · rename_i last
          rw [if_pos last]
          obtain rfl := Option.some_inj.mp extracted
          rw [List.length_cons, List.take_succ_cons, List.take_nil]
        · rename_i more
          rw [if_neg more]
          obtain ⟨later, extracted', rfl⟩ := Option.map_eq_some_iff.mp extracted
          rw [inductionHypothesis extracted']
          rfl

/-! ### Staging -/

/-- The path has a buffer, or the kernel finds one. -/
def Obtains (kernel : Kernel) (m : Machine) : Prop :=
  m.buffer ≠ 0 ∨
    kernel.srqMem.1 = 0 ∧ ¬kernel.srqMem.2.1 < 256 ∧ kernel.srqMem.2.2 ≠ 0

theorem getBuffer_spec (kernel : Kernel) (m : Machine) :
    ((getBuffer kernel m).1 = 0 ↔ Obtains kernel m) ∧
      (getBuffer kernel m).2.stores = m.stores ∧ (getBuffer kernel m).2.memory = m.memory := by
  unfold getBuffer Obtains
  split
  · rename_i has
    exact ⟨⟨fun _ => .inl has, fun _ => rfl⟩, rfl, rfl⟩
  · rename_i hasNot
    unfold os9SRqMem
    dsimp only
    by_cases refused : kernel.srqMem.1 ≠ 0
    · rw [if_pos refused, if_pos refused]
      exact ⟨⟨fun okay => absurd okay refused, fun obtains => (obtains.resolve_left hasNot).1⟩, rfl,
        rfl⟩
    · rw [if_neg refused, if_neg (not_not_intro rfl)]
      have accepted := Classical.not_not.mp refused
      by_cases small : kernel.srqMem.2.1 < 256
      · rw [if_pos small]
        exact ⟨⟨fun okay => absurd okay (show E_NORAM ≠ 0 by decide),
          fun obtains => absurd small (obtains.resolve_left hasNot).2.1⟩, rfl, rfl⟩
      · rw [if_neg small]
        by_cases zero : kernel.srqMem.2.2 = 0
        · rw [if_pos zero]
          exact ⟨⟨fun okay => absurd okay (show E_NORAM ≠ 0 by decide),
            fun obtains => absurd zero (obtains.resolve_left hasNot).2.2⟩, rfl, rfl⟩
        · rw [if_neg zero]
          exact ⟨⟨fun _ => .inr ⟨accepted, small, zero⟩, fun _ => rfl⟩, rfl, rfl⟩

theorem os9Move_zero {answer : UInt8} (moves : answer = 0) (count src dest : Nat)
    (srcMap destMap : Task) (m : Machine) :
    os9Move answer count src srcMap dest destMap m =
      (0, m.put destMap dest (m.load srcMap src count)) :=
  if_neg (not_not_intro moves)

theorem os9Move_error {answer : UInt8} (error : answer ≠ 0) (count src dest : Nat)
    (srcMap destMap : Task) (m : Machine) :
    os9Move answer count src srcMap dest destMap m = (answer, m) :=
  if_pos error

section

variable {kernel : Kernel} {regs : Regs} {m : Machine}

/-- The bytes at the address in X. -/
def Machine.pathText (m : Machine) (regs : Regs) : Text :=
  m.load .user regs.rx.toNat MAX_PATH_LEN

/-- The bytes that the user has for a Write. -/
def Machine.userData (m : Machine) (regs : Regs) : Text :=
  m.load .user regs.rx.toNat regs.ry.toNat

/-- The machine when the path has been moved into the buffer. -/
def pathMoved (kernel : Kernel) (regs : Regs) (m : Machine) : Machine :=
  (getBuffer kernel m).2.put .system (getBuffer kernel m).2.buffer.toNat (m.pathText regs)

/-- The path is staged just when there is a buffer and the kernel moves it. -/
theorem stagePath_eq : stagePath kernel regs m =
    if (getBuffer kernel m).1 ≠ 0 then
      ((getBuffer kernel m).2, .returned (getBuffer kernel m).1)
    else if kernel.moveIn ≠ 0 then ((getBuffer kernel m).2, .returned kernel.moveIn)
    else
      (hyperVerbosity 60 0 (pathMoved kernel regs m),
        .request ((hyperVerbosity 60 0 (pathMoved kernel regs m)).load .system
          (hyperVerbosity 60 0 (pathMoved kernel regs m)).buffer.toNat MAX_PATH_LEN)) := by
  have same : (getBuffer kernel m).2.load .user regs.rx.toNat MAX_PATH_LEN = m.pathText regs := by
    rw [Machine.pathText, Machine.load, Machine.load, (getBuffer_spec kernel m).2.2]
  rw [stagePath]
  dsimp only
  split
  · rfl
  · by_cases error : kernel.moveIn ≠ 0
    · rw [os9Move_error error]
      dsimp only
      rw [if_pos error, if_pos error]
    · rw [os9Move_zero (Classical.not_not.mp error), if_neg error, same]
      rfl

theorem length_pathText : (m.pathText regs).length = MAX_PATH_LEN := length_mload ..

/-- What is sent of a path is the path up to its sixtieth byte, and then a 0. -/
theorem extractName_staged {name : Text}
    (extracted : extractName (m.pathText regs) = some name) :
    extractName ((hyperVerbosity 60 0 (pathMoved kernel regs m)).load .system
      (hyperVerbosity 60 0 (pathMoved kernel regs m)).buffer.toNat MAX_PATH_LEN) =
      some (name.take 60) := by
  obtain ⟨buffer, -, kept, ended⟩ :=
    hyperVerbosity_kept (show 0 + 60 = 60 from rfl) (pathMoved kernel regs m)
  generalize hyperVerbosity 60 0 (pathMoved kernel regs m) = after at buffer kept ended ⊢
  have moved : (pathMoved kernel regs m).load .system (pathMoved kernel regs m).buffer.toNat
      MAX_PATH_LEN = m.pathText regs := by
    have put : (pathMoved kernel regs m).load .system (getBuffer kernel m).2.buffer.toNat
        (m.pathText regs).length = m.pathText regs :=
      load_put_self _ (UInt16.toNat_lt _) (by rw [length_pathText]; decide)
    rwa [length_pathText] at put
  -- the part before the borrowed one is as it was moved, and behind it is the 0
  have front : after.load .system after.buffer.toNat 60 = (m.pathText regs).take 60 := by
    rw [buffer, ← moved, show MAX_PATH_LEN = 60 + 195 from rfl, load_add,
      List.take_left' (length_mload ..)]
    refine window_congr fun i below => ?_
    rw [Nat.zero_add]
    exact kept i below
  have back : after.load .system (after.buffer.toNat + 60) 195 =
      0 :: after.load .system (after.buffer.toNat + 60 + 1) 194 := by
    rw [show 195 = 1 + 194 from rfl, load_add]
    show after.memory .system (0 + (after.buffer.toNat + 60 + 0) % SPACE) :: _ = _
    rw [Nat.zero_add, Nat.add_zero, buffer]
    exact congrArg (· :: _) ended
  rw [show MAX_PATH_LEN = 60 + 195 from rfl, load_add, front, back]
  rw [← List.take_append_drop 60 (m.pathText regs)] at extracted
  have cut := extractName_cut (after.load .system (after.buffer.toNat + 60 + 1) 194) extracted
  rw [List.length_take, length_pathText] at cut
  exact cut

theorem safe_stagePath (fresh : m.stores = []) : Safe regs (stagePath kernel regs m).1 := by
  obtain ⟨-, stores, -⟩ := getBuffer_spec kernel m
  have clean : Safe regs (getBuffer kernel m).2 := by
    intro store member
    rw [stores, fresh] at member
    cases member
  rw [stagePath_eq]
  split
  · exact clean
  · split
    · exact clean
    · refine Safe.hyperVerbosity rfl (clean.put ?_)
      rw [length_pathText, ← inBuffer_zero]
      exact within_inBuffer _ (by decide) (by decide)

/-- The length of what a Write or a WritLn sends. -/
def writeLength (regs : Regs) (linely : Bool) (m : Machine) : Nat :=
  if linely then lineLength (m.userData regs) else regs.ry.toNat

theorem lineLength_le (data : Text) : lineLength data ≤ data.length := Nat.min_le_right _ _

theorem writeLength_le (linely : Bool) : writeLength regs linely m ≤ regs.ry.toNat := by
  unfold writeLength
  split
  · refine (lineLength_le _).trans (Nat.le_of_eq ?_)
    exact length_mload ..
  · exact Nat.le_refl _

theorem stageWrite_eq (linely : Bool) : stageWrite kernel regs linely m =
    if 256 < regs.ry.toNat then (m, .stopped)
    else if kernel.moveIn ≠ 0 then (m, .returned kernel.moveIn)
    else
      (m.put .system m.buffer.toNat (m.userData regs),
        .request ((m.userData regs).take (writeLength regs linely m))) := by
  rw [stageWrite]
  split
  · rfl
  · by_cases error : kernel.moveIn ≠ 0
    · rw [os9Move_error error]
      dsimp only
      rw [if_pos error, if_pos error]
    · rw [os9Move_zero (Classical.not_not.mp error), if_neg error]
      dsimp only
      rw [if_neg (not_not_intro rfl)]
      have length : (m.userData regs).length = regs.ry.toNat := length_mload ..
      have data : (m.put .system m.buffer.toNat (m.userData regs)).load .system m.buffer.toNat
          regs.ry.toNat = m.userData regs := by
        have put : (m.put .system m.buffer.toNat (m.userData regs)).load .system m.buffer.toNat
            (m.userData regs).length = m.userData regs :=
          load_put_self _ (UInt16.toNat_lt _) (by rw [length]; exact regs.ry.toNat_lt.le)
        rwa [length] at put
      have part : ∀ n ≤ regs.ry.toNat,
          (m.put .system m.buffer.toNat (m.userData regs)).load .system m.buffer.toNat n =
            (m.userData regs).take n := by
        intro n small
        conv_rhs => rw [← data, show regs.ry.toNat = n + (regs.ry.toNat - n) by omega, load_add,
          List.take_left' (length_mload ..)]
      show (m.put .system m.buffer.toNat (m.userData regs), Staged.request
        ((m.put .system m.buffer.toNat (m.userData regs)).load .system m.buffer.toNat
          (if linely then lineLength ((m.put .system m.buffer.toNat (m.userData regs)).load .system
            m.buffer.toNat regs.ry.toNat) else regs.ry.toNat))) = _
      rw [data]
      exact congrArg (fun data => (_, Staged.request data)) (part _ (writeLength_le linely))

theorem safe_stageWrite (fresh : m.stores = []) (linely : Bool) :
    Safe regs (stageWrite kernel regs linely m).1 := by
  have clean : Safe regs m := by
    intro store member
    rw [fresh] at member
    cases member
  rw [stageWrite_eq]
  split
  · exact clean
  · rename_i small
    split
    · exact clean
    · refine clean.put ?_
      rw [show (m.userData regs).length = regs.ry.toNat from length_mload .., ← inBuffer_zero]
      exact within_inBuffer _ (by omega) (by omega)

end

/-! ### The contract -/

def Call.staged (call : Call) : Machine × Staged :=
  stage call.kernel call.op call.linkCount call.regs call.machine

/-- What the waiter makes of a request with this payload. -/
def Call.outcome (host : Host) (g : Globals) (call : Call) (payload : Text) : Outcome :=
  doLemMan host g ⟨requestBody call.op call.regs payload, call.info⟩ call.pd.toNat

/-- What the file manager is meant to do. -/
structure Agrees (host : Host) (g : Globals) (call : Call) : Prop where
  stores : Safe call.regs (bridge2 host g call).machine
  names : call.op.toNat ∈ [1, 2, 5] → call.check = 0 →
    ∀ payload, call.staged.2 = .request payload →
      ∀ name, extractName (call.machine.pathText call.regs) = some name → name.length ≤ 254 →
        nameOf (requestBody call.op call.regs payload) = some name
  reads : call.op.toNat ∈ [7, 9] → ∀ regs, (bridge2 host g call).result = .returned 0 regs →
    ∃ reply, (call.outcome host g []).reply = some reply ∧
      reply.payload.length ≤ call.regs.ry.toNat ∧
      (bridge2 host g call).machine.memory .user =
        Ring.put 0 SPACE (call.memory .user) call.regs.rx.toNat reply.payload ∧
      regs.ry.toNat = reply.payload.length
  writes : call.op.toNat ∈ [8, 10] → ∀ regs, (bridge2 host g call).result = .returned 0 regs →
    ∃ payload, call.staged.2 = .request payload ∧ regs.ry.toNat = payload.length

/-- What a Read or a ReadLn of the bytes at the cursor gives. -/
def Call.given (call : Call) (bytes : Text) : Text :=
  if call.op.toNat = 9 then chopLine bytes else bytes

/-- A path that is sent has at most sixty characters. What there is for a Read or a ReadLn is more
than the chip's ring can hold, or fits the buffer and is as much as was asked for, if it comes as
far as the user. A WritLn that the waiter accepts has no `\r` before the last byte. -/
structure Harmless (g : Globals) (call : Call) : Prop where
  names : call.op.toNat ∈ [1, 2, 5] → call.check = 0 → call.kernel.moveIn = 0 →
    Obtains call.kernel call.machine →
      ∀ name, extractName (call.machine.pathText call.regs) = some name → name.length ≤ 254 →
        name.length ≤ 60
  reads : call.op.toNat ∈ [7, 9] → call.check = 0 →
    ∀ p, g.lmPaths call.pd.toNat = some p → p.offset < p.size →
      ∀ bytes, readPath g p (min call.regs.ry.toNat (p.size - p.offset)) = some bytes →
        RING_SIZE < (call.given bytes).length ∨
          (call.given bytes).length ≤ 256 ∧
            (call.kernel.moveOut = 0 ∨ call.given bytes = [] →
              (call.given bytes).length = call.regs.ry.toNat)
  lines : call.op.toNat = 10 → call.check = 0 → call.kernel.moveIn = 0 →
    call.regs.ry.toNat ≤ 256 → Accepts g call.pd.toNat →
      lineLength (call.machine.userData call.regs) = call.regs.ry.toNat

section

variable {host : Host} {g : Globals} {call : Call}

theorem staged_path (path : call.op.toNat ∈ [1, 2, 3, 4, 5]) :
    call.staged = stagePath call.kernel call.regs call.machine := by
  simp only [List.mem_cons, List.not_mem_nil, or_false] at path
  unfold Call.staged stage
  rcases path with is | is | is | is | is <;> (rw [is]; rfl)

theorem staged_write {linely : Bool} (write : call.op.toNat = if linely then 10 else 8) :
    call.staged = stageWrite call.kernel call.regs linely call.machine := by
  unfold Call.staged stage
  rw [write]
  cases linely
  · rfl
  · rfl

/-- An operation that moves nothing sends a request without a payload, if it sends one. -/
theorem staged_plain (plain : call.op.toNat ∉ [1, 2, 3, 4, 5, 8, 10]) :
    call.staged.1 = call.machine ∧
      ∀ payload, call.staged.2 = .request payload → payload = [] := by
  simp only [List.mem_cons, List.not_mem_nil, or_false, not_or] at plain
  unfold Call.staged stage
  split
  case h_1 is => exact absurd is plain.1
  case h_2 is => exact absurd is plain.2.1
  case h_3 is => exact absurd is plain.2.2.1
  case h_4 is => exact absurd is plain.2.2.2.1
  case h_5 is => exact absurd is plain.2.2.2.2.1
  case h_6 is => exact absurd is plain.2.2.2.2.2.1
  case h_7 is => exact absurd is plain.2.2.2.2.2.2
  case h_8 => exact ⟨rfl, fun _ same => by cases same⟩
  case h_9 =>
    split
    · exact ⟨rfl, fun _ same => by cases same⟩
    · exact ⟨rfl, fun _ same => (Staged.request.inj same).symm⟩
  case h_10 => exact ⟨rfl, fun _ same => (Staged.request.inj same).symm⟩

theorem staged_read (read : call.op.toNat ∈ [7, 9, 11]) :
    call.staged = (call.machine, .request []) := by
  simp only [List.mem_cons, List.not_mem_nil, or_false] at read
  unfold Call.staged stage
  rcases read with is | is | is <;> (rw [is]; rfl)

theorem length_writePayload (linely : Bool) :
    ((call.machine.userData call.regs).take (writeLength call.regs linely call.machine)).length =
      writeLength call.regs linely call.machine := by
  rw [List.length_take, Nat.min_eq_left]
  exact (writeLength_le linely).trans (Nat.le_of_eq (length_mload ..).symm)

/-- What is sent with an operation fits the buffer. -/
theorem length_staged {payload : Text} (staged : call.staged.2 = .request payload) :
    payload.length ≤ 256 := by
  by_cases path : call.op.toNat ∈ [1, 2, 3, 4, 5]
  · rw [staged_path path, stagePath_eq] at staged
    split at staged
    · cases staged
    · split at staged
      · cases staged
      · obtain rfl := Staged.request.inj staged
        rw [length_mload]
        decide
  have wrote : ∀ linely, call.staged = stageWrite call.kernel call.regs linely call.machine →
      payload.length ≤ 256 := by
    intro linely same
    rw [same, stageWrite_eq] at staged
    split at staged
    · cases staged
    · split at staged
      · cases staged
      · obtain rfl := Staged.request.inj staged
        rw [length_writePayload]
        have le : writeLength call.regs linely call.machine ≤ call.regs.ry.toNat :=
          writeLength_le linely
        omega
  by_cases write : call.op.toNat = 8
  · exact wrote false (staged_write write)
  by_cases line : call.op.toNat = 10
  · exact wrote true (staged_write line)
  have plain : call.op.toNat ∉ [1, 2, 3, 4, 5, 8, 10] := by
    simp only [List.mem_cons, List.not_mem_nil, or_false, not_or] at path ⊢
    omega
  rw [(staged_plain plain).2 payload staged]
  decide

theorem safe_machine : Safe call.regs call.machine := fun _ member => by cases member

theorem safe_staged : Safe call.regs call.staged.1 := by
  by_cases path : call.op.toNat ∈ [1, 2, 3, 4, 5]
  · rw [staged_path path]
    exact safe_stagePath rfl
  by_cases write : call.op.toNat = 8
  · rw [@staged_write call false write]
    exact safe_stageWrite rfl false
  by_cases line : call.op.toNat = 10
  · rw [@staged_write call true line]
    exact safe_stageWrite rfl true
  have plain : call.op.toNat ∉ [1, 2, 3, 4, 5, 8, 10] := by
    simp only [List.mem_cons, List.not_mem_nil, or_false, not_or] at path ⊢
    omega
  rw [(staged_plain plain).1]
  exact safe_machine

/-! ### How a call ends -/

theorem bridge2_of_returned {e : UInt8} (staged : call.staged.2 = .returned e) :
    bridge2 host g call = ⟨call.staged.1, .returned e call.regs, g, call.check⟩ := by
  rw [bridge2, show stage call.kernel call.op call.linkCount call.regs call.machine =
    (call.staged.1, .returned e) from Prod.ext rfl staged]

theorem bridge2_of_stopped (staged : call.staged.2 = .stopped) :
    bridge2 host g call = ⟨call.staged.1, .stuck, g, call.check⟩ := by
  rw [bridge2, show stage call.kernel call.op call.linkCount call.regs call.machine =
    (call.staged.1, .stopped) from Prod.ext rfl staged]

theorem bridge2_of_down {payload : Text} (staged : call.staged.2 = .request payload)
    (down : call.check ≠ 0) :
    bridge2 host g call = ⟨call.staged.1, .returned call.check call.regs, g, call.check⟩ := by
  rw [bridge2, show stage call.kernel call.op call.linkCount call.regs call.machine =
    (call.staged.1, .request payload) from Prod.ext rfl staged]
  exact if_pos down

/-- A request that is sent reaches the waiter, and its reply comes back. -/
theorem bridge2_of_sent {payload : Text} (staged : call.staged.2 = .request payload)
    (up : call.check = 0) :
    bridge2 host g call =
      match (call.outcome host g payload).reply with
      | none => ⟨call.staged.1, .returned unitError call.regs,
          (call.outcome host g payload).globals, unitError⟩
      | some reply =>
        ⟨(settle call.kernel call.op call.regs (replyWire reply call.pd.toNat) call.staged.1).1,
          (settle call.kernel call.op call.regs (replyWire reply call.pd.toNat) call.staged.1).2,
          (call.outcome host g payload).globals, call.check⟩ := by
  have short := length_staged staged
  rw [bridge2, show stage call.kernel call.op call.linkCount call.regs call.machine =
    (call.staged.1, .request payload) from Prod.ext rfl staged]
  dsimp only
  rw [if_neg (not_not_intro up), waiter_wire _ _ _ _ _ _ _ (by unfold headerLen; omega)]
  rw [Call.outcome]
  cases (doLemMan host g ⟨requestBody call.op call.regs payload, call.info⟩
    call.pd.toNat).reply with
  | none => rfl
  | some reply => rfl

theorem outcome_eq (payload : Text) : call.outcome host g payload =
    match call.op.toNat with
    | 7 => lmRead g call.pd.toNat call.regs.words false
    | 8 => lmWrite g call.pd.toNat call.regs.words payload
    | 9 => lmRead g call.pd.toNat call.regs.words true
    | 10 => lmWrite g call.pd.toNat call.regs.words payload
    | 11 => lmGetStt host g call.pd.toNat call.info call.regs.words
    | _ => call.outcome host g payload := by
  have header : ¬(requestBody call.op call.regs payload).length < headerLen := by
    rw [length_requestBody]
    omega
  split
  all_goals first
    | rfl
    | (rename_i is
       unfold Call.outcome doLemMan
       dsimp only
       rw [if_neg header, show opOf (requestBody call.op call.regs payload) = call.op from rfl, is,
         regsOf_requestBody, drop_requestBody]
       rfl)

/-- A request that gets no payload back leaves the machine as it was when it was sent. -/
theorem machine_of_bare (quiet : call.op.toNat ∉ [7, 9, 11]) :
    (bridge2 host g call).machine = call.staged.1 := by
  cases staged : call.staged.2 with
  | returned e => rw [bridge2_of_returned staged]
  | stopped => rw [bridge2_of_stopped staged]
  | request payload =>
    by_cases up : call.check = 0
    · rw [bridge2_of_sent staged up]
      cases replied : (call.outcome host g payload).reply with
      | none => rfl
      | some reply =>
        have bare : Bare (call.outcome host g payload) := bare_doLemMan _ _ _ _ quiet
        dsimp only
        rw [settle_of_nil _ _ _ _ _ (bare reply replied)]
    · rw [bridge2_of_down staged up]

/-! ### Names -/

theorem staged_path_request {payload : Text} (path : call.op.toNat ∈ [1, 2, 3, 4, 5]) :
    call.staged.2 = .request payload ↔
      Obtains call.kernel call.machine ∧ call.kernel.moveIn = 0 ∧
        payload = (hyperVerbosity 60 0 (pathMoved call.kernel call.regs call.machine)).load .system
          (hyperVerbosity 60 0 (pathMoved call.kernel call.regs call.machine)).buffer.toNat
          MAX_PATH_LEN := by
  obtain ⟨obtains, -, -⟩ := getBuffer_spec call.kernel call.machine
  rw [staged_path path, stagePath_eq, ← obtains]
  split
  · rename_i refused
    exact ⟨fun same => (by cases same), fun given => absurd given.1 refused⟩
  · rename_i has
    split
    · rename_i error
      exact ⟨fun same => (by cases same), fun given => absurd given.2.1 error⟩
    · rename_i moves
      exact ⟨fun same => ⟨Classical.not_not.mp has, Classical.not_not.mp moves,
        (Staged.request.inj same).symm⟩, fun given => congrArg Staged.request given.2.2.symm⟩

/-- The name that the waiter takes out is the first sixty characters of the path's. -/
theorem nameOf_staged (path : call.op.toNat ∈ [1, 2, 3, 4, 5]) {payload name : Text}
    (staged : call.staged.2 = .request payload)
    (extracted : extractName (call.machine.pathText call.regs) = some name) :
    nameOf (requestBody call.op call.regs payload) = some (name.take 60) := by
  have short := length_staged staged
  obtain ⟨-, -, rfl⟩ := (staged_path_request path).mp staged
  rw [nameOf_requestBody _ _ _ (by omega)]
  exact extractName_staged extracted

theorem names_iff (names : call.op.toNat ∈ [1, 2, 5]) :
    (∀ payload, call.staged.2 = .request payload →
      ∀ name, extractName (call.machine.pathText call.regs) = some name → name.length ≤ 254 →
        nameOf (requestBody call.op call.regs payload) = some name) ↔
    (call.kernel.moveIn = 0 → Obtains call.kernel call.machine →
      ∀ name, extractName (call.machine.pathText call.regs) = some name → name.length ≤ 254 →
        name.length ≤ 60) := by
  have path : call.op.toNat ∈ [1, 2, 3, 4, 5] := by
    simp only [List.mem_cons, List.not_mem_nil, or_false] at names ⊢
    omega
  constructor
  · intro agrees moves obtains name extracted short
    have staged := (staged_path_request path).mpr ⟨obtains, moves, rfl⟩
    have same := (nameOf_staged path staged extracted).symm.trans
      (agrees _ staged name extracted short)
    rw [← Option.some_inj.mp same, List.length_take]
    exact Nat.min_le_left _ _
  · intro harmless payload staged name extracted short
    obtain ⟨obtains, moves, -⟩ := (staged_path_request path).mp staged
    rw [nameOf_staged path staged extracted,
      List.take_of_length_le (harmless moves obtains name extracted short)]

/-! ### Writes -/

/-- When a Write or a WritLn succeeds, and what it sends. -/
theorem write_succeeds {linely : Bool} (write : call.op.toNat = if linely then 10 else 8)
    (numbered : Numbered g.prevLemmaError) (regs : Regs) :
    (bridge2 host g call).result = .returned 0 regs ↔
      call.check = 0 ∧ call.kernel.moveIn = 0 ∧ call.regs.ry.toNat ≤ 256 ∧
        Accepts g call.pd.toNat ∧ regs = call.regs := by
  have quiet : call.op.toNat ∉ [7, 9, 11] := by
    rw [write]
    cases linely
    · decide
    · decide
  have outcome : ∀ payload, call.outcome host g payload =
      lmWrite g call.pd.toNat call.regs.words payload := by
    intro payload
    rw [outcome_eq, write]
    cases linely
    · rfl
    · rfl
  have same := staged_write write
  rw [stageWrite_eq] at same
  by_cases long : 256 < call.regs.ry.toNat
  · rw [if_pos long] at same
    rw [bridge2_of_stopped (congrArg Prod.snd same)]
    exact ⟨fun okay => (by cases okay), fun given => absurd given.2.2.1 (by omega)⟩
  rw [if_neg long] at same
  by_cases error : call.kernel.moveIn ≠ 0
  · rw [if_pos error] at same
    rw [bridge2_of_returned (congrArg Prod.snd same)]
    exact ⟨fun okay => absurd (Result.returned.inj okay).1 error, fun given =>
      absurd given.2.1 error⟩
  rw [if_neg error] at same
  have staged := congrArg Prod.snd same
  by_cases up : call.check = 0
  · rw [bridge2_of_sent staged up, outcome]
    constructor
    · intro okay
      split at okay
      · exact absurd (Result.returned.inj okay).1 (by decide)
      · rename_i reply replied
        obtain ⟨kept, success⟩ := status_lmWrite numbered replied
        rw [settle_of_nil _ _ _ _ _ (bare_lmWrite _ _ _ _ reply replied), kept,
          ofBytes_words] at okay
        obtain ⟨status, rfl⟩ := Result.returned.inj okay
        exact ⟨up, Classical.not_not.mp error, by omega, success.mp status, rfl⟩
    · rintro ⟨-, -, -, accepts, rfl⟩
      rw [reply_of_accepts accepts]
      dsimp only
      rw [settle_of_nil _ _ _ _ _ rfl, ofBytes_words]
  · rw [bridge2_of_down staged up]
    exact ⟨fun okay => absurd (Result.returned.inj okay).1 up, fun given => absurd given.1 up⟩

theorem writes_iff {linely : Bool} (write : call.op.toNat = if linely then 10 else 8)
    (numbered : Numbered g.prevLemmaError) :
    (∀ regs, (bridge2 host g call).result = .returned 0 regs →
      ∃ payload, call.staged.2 = .request payload ∧ regs.ry.toNat = payload.length) ↔
    (call.check = 0 → call.kernel.moveIn = 0 → call.regs.ry.toNat ≤ 256 →
      Accepts g call.pd.toNat →
        writeLength call.regs linely call.machine = call.regs.ry.toNat) := by
  have staged : call.kernel.moveIn = 0 → call.regs.ry.toNat ≤ 256 → call.staged.2 =
      .request ((call.machine.userData call.regs).take
        (writeLength call.regs linely call.machine)) := by
    intro moves short
    rw [staged_write write, stageWrite_eq, if_neg (by omega), if_neg (not_not_intro moves)]
  constructor
  · intro agrees up moves short accepts
    obtain ⟨payload, sent, length⟩ := agrees call.regs
      ((write_succeeds write numbered _).mpr ⟨up, moves, short, accepts, rfl⟩)
    obtain rfl := Staged.request.inj ((staged moves short).symm.trans sent)
    rw [length, length_writePayload]
  · intro harmless regs okay
    obtain ⟨up, moves, short, accepts, rfl⟩ := (write_succeeds write numbered _).mp okay
    refine ⟨_, staged moves short, ?_⟩
    rw [length_writePayload, harmless up moves short accepts]

/-! ### Reads -/

theorem reply_of_given {pd : Nat} {regs : LMRegs} {linely : Bool} {p : LMPath} {bytes : Text}
    (found : g.lmPaths pd = some p) (more : p.offset < p.size)
    (read : readPath g p (min regs.ry (p.size - p.offset)) = some bytes) :
    (lmRead g pd regs linely).reply =
      some ⟨0, regs, if linely then chopLine bytes else bytes⟩ := by
  rw [lmRead, found]
  dsimp only
  rw [if_neg (Nat.not_le.mpr more), read]
  rfl

theorem length_readPath {p : LMPath} {n : Nat} {bytes : Text} (read : readPath g p n = some bytes) :
    bytes.length ≤ n := by
  have bound : ∀ file : Text, (readAt p.offset n file).length ≤ n := fun file =>
    (List.length_take_le ..)
  unfold readPath at read
  split at read
  · obtain rfl := Option.some_inj.mp read
    exact bound _
  · split at read
    · cases read
    · split at read
      · obtain rfl := Option.some_inj.mp read
        exact bound _
      · cases read

theorem length_chopLine_le (bytes : Text) : (chopLine bytes).length ≤ bytes.length := by
  unfold chopLine
  dsimp only
  split
  · rw [List.length_append, List.length_take, List.length_singleton]
    omega
  · exact Nat.le_refl _

theorem length_given {p : LMPath} {bytes : Text}
    (read : readPath g p (min call.regs.ry.toNat (p.size - p.offset)) = some bytes) :
    (call.given bytes).length ≤ call.regs.ry.toNat := by
  have short := (length_readPath read).trans (Nat.min_le_left _ _)
  unfold Call.given
  split
  · exact (length_chopLine_le bytes).trans short
  · exact short

theorem within_buffer_iff (buffer : UInt16) (regs : Regs) (count : Nat) :
    Within buffer regs ⟨.system, buffer.toNat, count⟩ ↔ count ≤ 256 := by
  show (buffer.toNat + SPACE - buffer.toNat) % SPACE + count ≤ 256 ↔ _
  rw [Nat.add_sub_cancel_left, Nat.mod_self, Nat.zero_add]

/-- The buffer and the user's bytes after a payload has come. -/
theorem deliver_moved {payload : Text} (read : call.op.toNat ∈ [7, 9])
    (moves : call.kernel.moveOut = 0) (fits : payload.length ≤ SPACE) :
    deliver call.kernel call.op call.regs payload.length
        (call.machine.put .system call.buffer.toNat payload) =
      (0, (call.machine.put .system call.buffer.toNat payload).put .user call.regs.rx.toNat
        payload) := by
  have same : deliver call.kernel call.op call.regs payload.length
      (call.machine.put .system call.buffer.toNat payload) =
      os9Move call.kernel.moveOut payload.length call.buffer.toNat .system call.regs.rx.toNat .user
        (call.machine.put .system call.buffer.toNat payload) := by
    simp only [List.mem_cons, List.not_mem_nil, or_false] at read
    unfold deliver
    rcases read with is | is <;> (rw [is]; rfl)
  rw [same, os9Move_zero moves, load_put_self _ (UInt16.toNat_lt _) fits]

theorem deliver_failed {payload : Text} (read : call.op.toNat ∈ [7, 9])
    (error : call.kernel.moveOut ≠ 0) :
    deliver call.kernel call.op call.regs payload.length
        (call.machine.put .system call.buffer.toNat payload) =
      (call.kernel.moveOut, call.machine.put .system call.buffer.toNat payload) := by
  simp only [List.mem_cons, List.not_mem_nil, or_false] at read
  unfold deliver
  rcases read with is | is <;> (rw [is]; exact os9Move_error error ..)

theorem safe_received (payload : Text) :
    Safe call.regs (call.machine.put .system call.buffer.toNat payload) ↔
      payload.length ≤ 256 := by
  constructor
  · intro safe
    exact (within_buffer_iff ..).mp (safe _ (List.mem_singleton_self _))
  · intro short
    exact safe_machine.put ((within_buffer_iff ..).mpr short)

/-- What a Read or a ReadLn is meant to do. -/
def Reads (host : Host) (g : Globals) (call : Call) : Prop :=
  Safe call.regs (bridge2 host g call).machine ∧
    ∀ regs, (bridge2 host g call).result = .returned 0 regs →
      ∃ reply, (call.outcome host g []).reply = some reply ∧
        reply.payload.length ≤ call.regs.ry.toNat ∧
        (bridge2 host g call).machine.memory .user =
          Ring.put 0 SPACE (call.memory .user) call.regs.rx.toNat reply.payload ∧
        regs.ry.toNat = reply.payload.length

/-- Nothing is stored, and the call does not succeed. -/
theorem reads_of_fails (machine : (bridge2 host g call).machine = call.machine)
    (fails : ∀ regs, (bridge2 host g call).result ≠ .returned 0 regs) : Reads host g call := by
  refine ⟨?_, fun regs okay => (fails regs okay).elim⟩
  rw [machine]
  exact safe_machine

/-- A Read of bytes that are there does what it is meant to just when they are too many for the
chip, or fit the buffer and are as many as Y says. -/
theorem reads_of_given {payload : Text} (read : call.op.toNat ∈ [7, 9]) (up : call.check = 0)
    (replied : (call.outcome host g []).reply = some ⟨0, call.regs.words, payload⟩)
    (short : payload.length ≤ call.regs.ry.toNat) :
    Reads host g call ↔ RING_SIZE < payload.length ∨
      payload.length ≤ 256 ∧ (call.kernel.moveOut = 0 ∨ payload = [] →
        payload.length = call.regs.ry.toNat) := by
  have word := call.regs.ry.toNat_lt
  have staged : call.staged = (call.machine, .request []) := staged_read (by
    simp only [List.mem_cons, List.not_mem_nil, or_false] at read ⊢
    omega)
  have sent := @bridge2_of_sent host g call [] (congrArg Prod.snd staged) up
  rw [replied, staged] at sent
  dsimp only at sent
  by_cases long : RING_SIZE < payload.length
  · rw [settle_of_long _ _ _ _ _ long (show payload.length < 65536 by omega)] at sent
    refine ⟨fun _ => .inl long, fun _ => reads_of_fails ?_ ?_⟩
    · rw [sent]
    · intro regs okay
      rw [sent] at okay
      cases okay
  by_cases empty : payload = []
  · rw [settle_of_nil _ _ _ _ _ empty, ofBytes_words] at sent
    constructor
    · rintro ⟨-, reads⟩
      obtain ⟨reply, same, -, -, length⟩ := reads call.regs (by rw [sent])
      obtain rfl := Option.some_inj.mp (replied.symm.trans same)
      exact .inr ⟨by rw [empty]; decide, fun _ => length.symm⟩
    · intro exact
      obtain ⟨-, length⟩ := exact.resolve_left long
      refine ⟨by rw [sent]; exact safe_machine, fun regs okay => ⟨_, replied, short, ?_, ?_⟩⟩
      · have stays : Ring.put 0 SPACE (call.memory .user) call.regs.rx.toNat [] =
            call.memory .user := by
          rw [put_eq_store (by have := call.regs.rx.toNat_lt; unfold SPACE; simp; omega), store_nil]
        rw [sent, empty, stays]
        rfl
      · rw [sent] at okay
        obtain ⟨-, rfl⟩ := Result.returned.inj okay
        exact (length (.inr empty)).symm
  have fits : payload.length ≤ 2048 := Nat.not_lt.mp long
  by_cases moves : call.kernel.moveOut = 0
  · have moved := deliver_moved read moves (show payload.length ≤ SPACE by unfold SPACE; omega)
    have settled := @settle_of_fits call.kernel call.op call.regs call.pd.toNat call.machine
      ⟨0, call.regs.words, payload⟩ empty fits _ _ moved
    rw [settled, if_neg (not_not_intro rfl), ofBytes_words] at sent
    have user : (bridge2 host g call).machine.memory .user =
        Ring.put 0 SPACE (call.memory .user) call.regs.rx.toNat payload := by
      rw [sent]
      exact (memory_put _).trans (by rw [memory_put_of_ne _ (by decide)]; rfl)
    have stores : (bridge2 host g call).machine.stores =
        [⟨.system, call.buffer.toNat, payload.length⟩,
          ⟨.user, call.regs.rx.toNat, payload.length⟩] := by
      rw [sent]
      rfl
    have buffer : (bridge2 host g call).machine.buffer = call.buffer := by
      rw [sent]
      rfl
    constructor
    · rintro ⟨safe, reads⟩
      obtain ⟨reply, same, -, -, length⟩ := reads call.regs (by rw [sent])
      obtain rfl := Option.some_inj.mp (replied.symm.trans same)
      refine .inr ⟨?_, fun _ => length.symm⟩
      have first := safe ⟨.system, call.buffer.toNat, payload.length⟩
        (by rw [stores]; exact List.mem_cons_self ..)
      rw [buffer] at first
      exact (within_buffer_iff ..).mp first
    · intro exact
      obtain ⟨small, length⟩ := exact.resolve_left long
      refine ⟨?_, fun regs okay => ⟨_, replied, short, user, ?_⟩⟩
      · intro store member
        rw [stores, List.mem_cons, List.mem_singleton] at member
        rw [buffer]
        rcases member with rfl | rfl
        · exact (within_buffer_iff ..).mpr small
        · exact ⟨rfl, short⟩
      · rw [sent] at okay
        obtain ⟨-, rfl⟩ := Result.returned.inj okay
        exact (length (.inl moves)).symm
  · have settled := @settle_of_fits call.kernel call.op call.regs call.pd.toNat call.machine
      ⟨0, call.regs.words, payload⟩ empty fits _ _ (deliver_failed read moves)
    rw [settled, if_pos moves] at sent
    have machine : (bridge2 host g call).machine =
        call.machine.put .system call.buffer.toNat payload := by
      rw [sent]
    constructor
    · rintro ⟨safe, -⟩
      rw [machine] at safe
      exact .inr ⟨(safe_received payload).mp safe, fun either =>
        (either.elim (fun okay => absurd okay moves) fun none => absurd none empty)⟩
    · intro exact
      obtain ⟨small, -⟩ := exact.resolve_left long
      refine ⟨by rw [machine]; exact (safe_received payload).mpr small, fun regs okay => ?_⟩
      rw [sent] at okay
      exact absurd (Result.returned.inj okay).1 moves

theorem reads_iff (read : call.op.toNat ∈ [7, 9]) (numbered : Numbered g.prevLemmaError) :
    Reads host g call ↔
      (call.check = 0 → ∀ p, g.lmPaths call.pd.toNat = some p → p.offset < p.size →
        ∀ bytes, readPath g p (min call.regs.ry.toNat (p.size - p.offset)) = some bytes →
          RING_SIZE < (call.given bytes).length ∨
            (call.given bytes).length ≤ 256 ∧
              (call.kernel.moveOut = 0 ∨ call.given bytes = [] →
                (call.given bytes).length = call.regs.ry.toNat)) := by
  have staged : call.staged = (call.machine, .request []) := staged_read (by
    simp only [List.mem_cons, List.not_mem_nil, or_false] at read ⊢
    omega)
  obtain ⟨linely, outcome, given⟩ : ∃ linely, (call.outcome host g [] =
      lmRead g call.pd.toNat call.regs.words linely) ∧
        ∀ bytes, call.given bytes = if linely then chopLine bytes else bytes := by
    simp only [List.mem_cons, List.not_mem_nil, or_false] at read
    unfold Call.given
    rcases read with is | is
    · exact ⟨false, by rw [outcome_eq, is]; rfl, fun bytes => by rw [is]; rfl⟩
    · exact ⟨true, by rw [outcome_eq, is]; rfl, fun bytes => by rw [is]; rfl⟩
  by_cases up : call.check = 0
  · by_cases there : ∃ p bytes, g.lmPaths call.pd.toNat = some p ∧ p.offset < p.size ∧
        readPath g p (min call.regs.ry.toNat (p.size - p.offset)) = some bytes
    · obtain ⟨p, bytes, found, more, gives⟩ := there
      have replied : (call.outcome host g []).reply =
          some ⟨0, call.regs.words, call.given bytes⟩ := by
        rw [outcome, given]
        exact reply_of_given found more gives
      rw [reads_of_given read up replied (length_given gives)]
      constructor
      · intro exact _ p' found' _ bytes' gives'
        obtain rfl := Option.some_inj.mp (found.symm.trans found')
        obtain rfl := Option.some_inj.mp (gives.symm.trans gives')
        exact exact
      · exact fun all => all up p found more bytes gives
    · refine ⟨fun _ _ p found more bytes gives => (there ⟨p, bytes, found, more, gives⟩).elim,
        fun _ => ?_⟩
      have sent := @bridge2_of_sent host g call [] (congrArg Prod.snd staged) up
      rw [staged] at sent
      dsimp only at sent
      rw [outcome] at sent
      cases replied : (lmRead g call.pd.toNat call.regs.words linely).reply with
      | none =>
        rw [replied] at sent
        refine reads_of_fails (by rw [sent]) fun regs okay => ?_
        rw [sent] at okay
        exact absurd (Result.returned.inj okay).1 (by decide)
      | some reply =>
        rw [replied] at sent
        cases readReply_lmRead numbered replied with
        | given p bytes found more gives => exact (there ⟨p, bytes, found, more, gives⟩).elim
        | refused _ bare error =>
          dsimp only at sent
          rw [settle_of_nil _ _ _ _ _ bare] at sent
          refine reads_of_fails (by rw [sent]) fun regs okay => ?_
          rw [sent] at okay
          exact error (Result.returned.inj okay).1
  · refine ⟨fun _ up' => absurd up' up, fun _ => ?_⟩
    have down := @bridge2_of_down host g call [] (congrArg Prod.snd staged) up
    rw [staged] at down
    refine reads_of_fails (by rw [down]) fun regs okay => ?_
    rw [down] at okay
    exact up (Result.returned.inj okay).1

/-! ### GetStt -/

theorem safe_getStt (get : call.op.toNat = 11) :
    Safe call.regs (bridge2 host g call).machine := by
  have staged : call.staged = (call.machine, .request []) :=
    staged_read (by rw [get]; decide)
  by_cases up : call.check = 0
  · have sent := @bridge2_of_sent host g call [] (congrArg Prod.snd staged) up
    rw [staged] at sent
    dsimp only at sent
    have outcome : call.outcome host g [] =
        lmGetStt host g call.pd.toNat call.info call.regs.words := by
      rw [outcome_eq, get]
      rfl
    cases replied : (call.outcome host g []).reply with
    | none =>
      rw [replied] at sent
      rw [sent]
      exact safe_machine
    | some reply =>
      rw [replied] at sent
      dsimp only at sent
      rw [outcome] at replied
      by_cases empty : reply.payload = []
      · rw [settle_of_nil _ _ _ _ _ empty] at sent
        rw [sent]
        exact safe_machine
      · obtain ⟨descriptor, length⟩ := (payload_lmGetStt replied).resolve_left empty
        have length : reply.payload.length = call.regs.ry.toNat % 256 := length
        have delivered : deliver call.kernel call.op call.regs reply.payload.length
            (call.machine.put .system call.buffer.toNat reply.payload) =
            os9Move call.kernel.moveOut (call.regs.ry.toNat % 256) call.buffer.toNat .system
              call.regs.rx.toNat .user
              (call.machine.put .system call.buffer.toNat reply.payload) := by
          rw [deliver, get]
          exact if_pos descriptor
        have settled := @settle_of_fits call.kernel call.op call.regs call.pd.toNat call.machine
          reply empty (by rw [length]; unfold RING_SIZE; omega) _ _ delivered
        rw [settled] at sent
        rw [sent]
        refine Safe.os9Move ((safe_received reply.payload).mpr (by omega)) ⟨rfl, ?_⟩
        exact Nat.mod_le _ _
  · rw [bridge2_of_down (congrArg Prod.snd staged) up, staged]
    exact safe_machine

/-! ### The result -/

/-- **The bridge.** Whatever has been asked of the waiter before, a call does what it is meant to
just when it is harmless. -/
theorem agrees_iff_harmless (host : Host) (disk : Disk.Disk) (history : List (Request × Nat))
    (call : Call) :
    Agrees host (served host disk history) call ↔ Harmless (served host disk history) call := by
  have numbered := numbered_served host disk history
  generalize served host disk history = g at numbered
  have written : ∀ {linely : Bool}, (call.op.toNat = if linely then 10 else 8) →
      Safe call.regs (bridge2 host g call).machine := by
    intro linely write
    rw [machine_of_bare (by rw [write]; cases linely <;> decide)]
    exact safe_staged
  constructor
  · intro agrees
    refine ⟨fun names up => (names_iff names).mp (agrees.names names up), fun read up => ?_,
      fun line up => ?_⟩
    · exact (reads_iff read numbered).mp ⟨agrees.stores, agrees.reads read⟩ up
    · exact (@writes_iff host g call true line numbered).mp
        (agrees.writes (by rw [line]; decide)) up
  · intro harmless
    refine ⟨?_, fun names up => (names_iff names).mpr (harmless.names names up), fun read => ?_,
      fun write => ?_⟩
    · by_cases read : call.op.toNat ∈ [7, 9]
      · exact ((reads_iff read numbered).mpr (harmless.reads read)).1
      by_cases get : call.op.toNat = 11
      · exact safe_getStt get
      rw [machine_of_bare (by
        simp only [List.mem_cons, List.not_mem_nil, or_false, not_or] at read ⊢
        omega)]
      exact safe_staged
    · exact ((reads_iff read numbered).mpr (harmless.reads read)).2
    · simp only [List.mem_cons, List.not_mem_nil, or_false] at write
      rcases write with is | is
      · exact (@writes_iff host g call false is numbered).mpr fun _ _ _ _ => rfl
      · exact (@writes_iff host g call true is numbered).mpr (harmless.lines is)

end

/-! ### A long name -/

/-- An Open of a path of 61 characters `a`, at address 0x4000. -/
def openLong : Call where
  op := 2
  pd := 0x7000
  linkCount := 1
  regs := ⟨0, 1, 0, 0, 0x4000, 0, 0, 0⟩
  memory := fun _ a => if 0x4000 ≤ a ∧ a < 0x4000 + 61 then 97 else CR
  buffer := 0x2000
  kernel := ⟨(0, 256, 0x2000), 0, 0, 0⟩
  info := noInfo
  check := 0

/-- The waiter is asked for another name. -/
theorem not_agrees_openLong :
    ¬Agrees smallHost (served smallHost (smallDisk hello) []) openLong := by
  intro agrees
  have path : openLong.op.toNat ∈ [1, 2, 3, 4, 5] := by decide
  have staged := (staged_path_request path).mpr ⟨.inl (by decide), rfl, rfl⟩
  have extracted : extractName (openLong.machine.pathText openLong.regs) =
      some (List.replicate 61 97) := by
    decide +kernel
  have same := (nameOf_staged path staged extracted).symm.trans
    (agrees.names (by decide) rfl _ staged _ extracted (by decide))
  exact absurd (Option.some_inj.mp same) (by decide)

end Frobio.Lemmanc
